import ModAspNet.L7Installer.ComboRows

/-!
# What the search finds, and what is accepted

`ResolveApacheInstances` puts the first installation it finds into `INSTALLDIR`.
The dialog hands the value to `VerifyApachePath`, which has its own test on the
length of a path: with the NUL at the end of `chkfile`, where `volsearch` counts
none.

* `addHits_first`: the first installation with a record sets the properties, the
  others add rows only.
* `found_closed`: the directories of the search end with a backslash.
* `found_verified_iff`: the value the search leaves is accepted exactly when it
  is not the one length longer that only the search admits.
-/
namespace ModAspNet.L7.ComboRows

open ModAspNet.L1.CStr ModAspNet.L7.QuickSearch ModAspNet.L7.VerifyPath

/-! ## The first installation -/

/-- The first hit for which `MsiCreateRecord` gives a record, from the `k`-th
call on. -/
def firstOffered {Attr : Type} (row : Nat → RowAnswers) : Nat → List (Hit Attr) → Option (Hit Attr)
  | _, [] => none
  | k, hit :: hits => if (row k).createRecord then some hit else firstOffered row (k + 1) hits

theorem firstOffered_mem {Attr : Type} {row : Nat → RowAnswers} : ∀ {k : Nat} {hits : List (Hit Attr)} {hit : Hit Attr},
    firstOffered row k hits = some hit → hit ∈ hits
  | k, first :: hits, hit, h => by
    unfold firstOffered at h
    split at h
    · cases h
      exact List.mem_cons_self
    · exact List.mem_cons_of_mem _ (firstOffered_mem h)

/-- Once a row was numbered, the properties stay. -/
theorem addHits_later {Attr : Type} (row : Nat → RowAnswers) : ∀ (hits : List (Hit Attr)) (k : Nat) {index : Int}
    (m : Session), 0 < index → (addHits row k hits m index).1.badPath = m.badPath ∧
      (addHits row k hits m index).1.INSTALLDIR = m.INSTALLDIR
  | [], _, _, _, _ => ⟨rfl, rfl⟩
  | hit :: hits, k, index, m, h => by
    have hne : index ≠ 0 := by omega
    cases hrec : (row k).createRecord with
    | false =>
      simp only [addHits, addRow_none hrec]
      exact addHits_later row hits (k + 1) m h
    | true =>
      have hadd : addRow (row k) (cstr hit.dir) index m =
          (msiViewModify (row k).viewModify ⟨combo, index + 1, cstr hit.dir⟩ m, index + 1) := by
        unfold addRow
        rw [hrec, if_neg hne]
        rfl
      simp only [addHits, hadd]
      exact addHits_later row hits (k + 1) _ (by omega)

/-- The first record sets both properties. -/
theorem addHits_first {Attr : Type} (row : Nat → RowAnswers) : ∀ (hits : List (Hit Attr)) (k : Nat) (m : Session),
    match firstOffered row k hits with
    | none => (addHits row k hits m 0).1 = m
    | some hit => (addHits row k hits m 0).1.badPath = zero ∧ (addHits row k hits m 0).1.INSTALLDIR = cstr hit.dir
  | [], _, _ => rfl
  | hit :: hits, k, m => by
    unfold firstOffered
    cases hrec : (row k).createRecord with
    | false =>
      rw [if_neg (by simp)]
      simp only [addHits, addRow_none hrec]
      exact addHits_first row hits (k + 1) m
    | true =>
      rw [if_pos rfl]
      have hadd : addRow (row k) (cstr hit.dir) 0 m = (msiViewModify (row k).viewModify ⟨combo, 0 + 1, cstr hit.dir⟩
          (msiSetTargetPath (row k).setTargetPath (cstr hit.dir) { m with badPath := zero, INSTALLDIR := cstr hit.dir }),
          0 + 1) := by
        unfold addRow
        rw [hrec]
        rfl
      simp only [addHits, hadd]
      obtain ⟨hbad, hdir⟩ := addHits_later row hits (k + 1) (msiViewModify (row k).viewModify ⟨combo, 0 + 1, cstr hit.dir⟩
        (msiSetTargetPath (row k).setTargetPath (cstr hit.dir) { m with badPath := zero, INSTALLDIR := cstr hit.dir }))
        (Int.lt_add_one_of_le (Int.le_refl 0))
      rw [hbad, hdir]
      unfold msiViewModify msiSetTargetPath
      dsimp only
      split <;> exact ⟨rfl, rfl⟩

/-! ## The directory of a hit -/

section
variable {Attr : Type} (d : Disk Attr) (getLogicalDrives : UInt32)

/-- The installations the search finds, in order. -/
def installations : List (Hit Attr) := (fixedRoots d getLogicalDrives 0 32).flatMap (searched d chkfile 3)

/-- Below a directory that ends with a backslash all directories do. -/
theorem within_closed {top dir : Bytes} {n : Nat} (htop : top.getLast? = some 92) (h : Within d chkfile top n dir) :
    dir.getLast? = some 92 := by
  cases h with
  | top _ => exact htop
  | sub _ _ _ _ => exact List.getLast?_append

theorem within_fits {top dir : Bytes} {n : Nat} (h : Within d chkfile top n dir) : Fits chkfile dir := by
  cases h with
  | top hfits => exact hfits
  | sub _ _ _ hfits => exact hfits

/-- What the search finds is a directory with the file, closed by a backslash,
that leaves room for the file's name but not for a NUL. -/
structure FoundDir (hit : Hit Attr) : Prop where
  nonul : 0 ∉ hit.dir
  closed : hit.dir.getLast? = some 92
  fits : hit.dir.length + chkfile.length ≤ MAX_PATH
  file : (d.getFileAttributesEx (cstr (hit.dir ++ chkfile.val))).isSome = true

theorem found_dir {hit : Hit Attr} (h : hit ∈ installations d getLogicalDrives) : FoundDir d hit := by
  obtain ⟨top, htop, hmem⟩ := List.mem_flatMap.mp h
  obtain ⟨i, hi, -, rfl⟩ := (mem_fixedRoots d getLogicalDrives top).mp htop
  obtain ⟨n, dir, -, hin, hhit⟩ := (mem_searched d chkfile 3 (rootOf i) hit).mp hmem
  have hnul := within_nonul d chkfile (nonul_rootOf hi) hin
  obtain ⟨hfi, -, -⟩ := (hitsAt_iff d chkfile hnul hit).mp hhit
  have hdir : hit.dir = dir := hitsAt_dir d chkfile hnul hhit
  constructor
  · rw [hdir]; exact hnul
  · rw [hdir]; exact within_closed d rfl hin
  · rw [hdir]; exact within_fits d hin
  · rw [hdir, hfi]; rfl

/-! ## The search, then the test -/

/-- `VerifyApachePath` on the same disk. -/
def verifyOn (v : Answers) (stack : Stack) (m : Session) : Option Session :=
  verifyApachePath v (fun p => (d.getFileAttributesEx p).isSome) stack.val m

/-- When `VerifyApachePath` can read the property, it goes through, whatever else
MSI answers, keeps the value, and finds it good exactly when with the file's
name it is shorter than `MAX_PATH`. -/
def VerifiedIffShort (hit : Hit Attr) (m : Session) : Prop :=
  ∀ (v : Answers) (stack : Stack), v.getProperty = true → ∃ m', verifyOn d v stack m = some m' ∧
    m'.INSTALLDIR = m.INSTALLDIR ∧ (m'.badPath = zero ↔ hit.dir.length + chkfile.length < MAX_PATH) ∧
    (hit.dir.length + chkfile.length = MAX_PATH → m'.badPath = one)

/-- The session `m` that the search leaves, from one in which the property had
the value `INSTALLDIR`. -/
def LeftBySearch (row : Nat → RowAnswers) (INSTALLDIR : CString) (m : Session) : Prop :=
  match firstOffered row 1 (installations d getLogicalDrives) with
  | none => m.badPath = one ∧ m.INSTALLDIR = INSTALLDIR
  | some hit => m.badPath = zero ∧ m.INSTALLDIR = cstr hit.dir ∧ VerifiedIffShort d hit m

/-- The directory of a hit, as the value of the property. -/
theorem verify_found {hit : Hit Attr} (h : FoundDir d hit) {m : Session} (hm : m.INSTALLDIR = cstr hit.dir) :
    VerifiedIffShort d hit m := by
  intro v stack hread
  have hval : (cstr hit.dir).val = hit.dir := cstr_of_nonul h.nonul
  have hlen : m.INSTALLDIR.length = hit.dir.length := by rw [hm, CString.length, hval]
  have hne : m.INSTALLDIR.val ≠ [] := by
    rw [hm, hval]
    intro hnil
    have := h.closed
    rw [hnil] at this
    cases this
  have hsame : installPath m.INSTALLDIR = m.INSTALLDIR := installPath_of_closed (by rw [hm, hval]; exact h.closed)
  have hsize : sizeofChkfile = chkfile.length + 1 := rfl
  have hfits := h.fits
  by_cases hroom : hit.dir.length + chkfile.length < MAX_PATH
  · have hfile : (d.getFileAttributesEx (cstr ((installPath m.INSTALLDIR).val ++ chkfile.val))).isSome = true := by
      rw [hsame, hm, hval]
      exact h.file
    refine ⟨_, (verify_fitting v _ stack hread hne (by omega)).trans (if_pos hfile), ?_, iff_of_true rfl hroom, fun he => ?_⟩
    · show (tried v (installPath m.INSTALLDIR) _).INSTALLDIR = m.INSTALLDIR
      rw [hsame]
      exact tried_INSTALLDIR v (msiSetTargetPath_INSTALLDIR v.setTargetPath rfl)
    · omega
  · exact ⟨_, verify_unfit v _ stack (by omega), rfl, iff_of_false one_ne_zero hroom, fun _ => rfl⟩

/-- For every disk, all contents of the arrays and all answers of MSI that open
the table: the search goes through. With no record made, `_BadPath` is 1 and
`INSTALLDIR` as it was; else `INSTALLDIR` is the directory of the first, and
`VerifyApachePath` accepts it unless it is as long as only the search admits. -/
theorem found_verified_iff (stack : Stack) (a : SearchAnswers) (hdb : a.getActiveDatabase = true)
    (hview : a.openView = true) (INSTALLDIR badPath : CString) (comboBox : List Row) :
    ∃ m, resolveApacheInstances d getLogicalDrives stack a (fresh INSTALLDIR badPath comboBox) = some m ∧
      LeftBySearch d getLogicalDrives a.row INSTALLDIR m := by
  refine ⟨_, resolve_found d getLogicalDrives stack hdb hview _, ?_⟩
  have hfirst := addHits_first a.row (installations d getLogicalDrives) 1
    { fresh INSTALLDIR badPath comboBox with badPath := one }
  unfold LeftBySearch
  split
  · rename_i hnone
    rw [hnone] at hfirst
    show (addHits a.row 1 (installations d getLogicalDrives) _ 0).1.badPath = one ∧
      (addHits a.row 1 (installations d getLogicalDrives) _ 0).1.INSTALLDIR = INSTALLDIR
    rw [hfirst]
    exact ⟨rfl, rfl⟩
  · rename_i hit hsome
    rw [hsome] at hfirst
    exact ⟨hfirst.1, hfirst.2, verify_found d (found_dir d getLogicalDrives (firstOffered_mem hsome)) hfirst.2⟩

end

/-- `A:\Apache\` is found. -/
theorem found_verified_apache : (firstOffered willingSearch.row 1 (installations apacheDisk 1)).map Hit.dir =
      some (lit "A:\\Apache\\") ∧
    ∃ m, resolveApacheInstances apacheDisk 1 clearedStack willingSearch (fresh one one []) = some m ∧
      LeftBySearch apacheDisk 1 willingSearch.row one m :=
  ⟨by decide +kernel, found_verified_iff apacheDisk 1 clearedStack willingSearch rfl rfl one one []⟩

end ModAspNet.L7.ComboRows
