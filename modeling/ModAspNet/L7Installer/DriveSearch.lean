import Mathlib.Data.List.Nodup
import ModAspNet.L7Installer.QuickSearch

/-!
# All drives

`drsearch` goes through the bits of `GetLogicalDrives` with the drive letter in
the first character of the shared array, and searches the fixed drives. It does
not ask whether the search name fits behind a drive's root, as `volsearch` does
before it descends.

* `driveLoop_spec`: drive by drive, what `searched` lists below the root.
* `mem_searched`, `searched_nodup`: the list has each directory within reach once.
* `drsearch_exact_iff`: the search is complete and exact exactly when the search
  name fits behind a root, or no drive is fixed.
* `drsearch_inside`: then it stays inside the array, and so does a callback that
  writes at the position it is given.
-/
namespace ModAspNet.L7.QuickSearch

open ModAspNet.L1.CStr

/-! ## The drives -/

/-- `A` and its successors. -/
def letter (i : Nat) : UInt8 := UInt8.ofNat (65 + i)

/-- `A:\` and its successors. -/
def rootOf (i : Nat) : Bytes := [letter i, 58, 92]

theorem letter_toNat {i : Nat} (hi : i < 32) : (letter i).toNat = 65 + i := by
  rw [letter, UInt8.toNat_ofNat']
  omega

theorem letter_succ (i : Nat) : letter i + 1 = letter (i + 1) := by
  rw [letter, letter, ← Nat.add_assoc, UInt8.ofNat_add (65 + i) 1]
  rfl

theorem nonul_rootOf {i : Nat} (hi : i < 32) : 0 ∉ rootOf i := by
  have hletter : 0 ≠ letter i := by
    intro h
    have := letter_toNat hi
    rw [← h, UInt8.toNat_zero] at this
    omega
  simp [rootOf, hletter]

section
variable {Attr : Type} (d : Disk Attr) (cb : FileSearch Attr) (findfile : CString) (depth : Nat)
  (getLogicalDrives : UInt32)

/-- The `i`-th drive is there, and fixed. -/
def FixedDrive (i : Nat) : Prop :=
  getLogicalDrives.toNat.testBit i = true ∧ d.getDriveType (cstr (rootOf i)) = DRIVE_FIXED

instance (i : Nat) : Decidable (FixedDrive d getLogicalDrives i) := inferInstanceAs (Decidable (_ ∧ _))

/-- The roots of the fixed drives among those from the `i`-th on. -/
def fixedRoots (i n : Nat) : List Bytes :=
  ((List.range' i n).filter fun j => decide (FixedDrive d getLogicalDrives j)).map rootOf

variable {d findfile depth getLogicalDrives}

theorem fixedRoots_succ (i n : Nat) : fixedRoots d getLogicalDrives i (n + 1) =
    (if FixedDrive d getLogicalDrives i then [rootOf i] else []) ++ fixedRoots d getLogicalDrives (i + 1) n := by
  unfold fixedRoots
  rw [List.range'_succ, List.filter_cons]
  by_cases h : FixedDrive d getLogicalDrives i
  · rw [if_pos (decide_eq_true h), if_pos h]
    rfl
  · rw [if_neg (by simpa using h), if_neg h]
    rfl

/-- `search[3] = '\0'` makes the root the path to look at. -/
theorem searchDrive_eq (findfile : CString) (depth : Nat) {i : Nat} (hi : i < 32) {s : Search Attr} (hs : Owns s.curpath (rootOf i)) :
    ∃ buf, Owns buf (rootOf i) ∧ searchDrive d cb findfile depth s =
      if d.getDriveType (cstr (rootOf i)) = DRIVE_FIXED then volsearch d cb findfile depth 3 { s with curpath := buf }
      else some { s with curpath := buf } := by
  obtain ⟨buf, hbuf, howns⟩ := hs.store [0] (by show 3 + 1 ≤ MAX_PATH + 1; decide)
  refine ⟨buf, howns.shorten, ?_⟩
  have hstore : store s.curpath 3 [0] = some buf := hbuf
  unfold searchDrive
  rw [hstore, Option.bind_eq_bind, Option.bind_some, cstr_begins howns.begins (nonul_rootOf hi)]

/-- One drive, when the search name fits behind its root. -/
theorem searchDrive_spec (hfile : findfile.val ≠ []) {i : Nat} (hi : i < 32)
    (hfits : d.getDriveType (cstr (rootOf i)) = DRIVE_FIXED → 3 + findfile.length ≤ MAX_PATH) :
    Finds (rootOf i) (if d.getDriveType (cstr (rootOf i)) = DRIVE_FIXED then searched d findfile depth (rootOf i) else [])
      (searchDrive d cb findfile depth) := by
  intro s hs
  obtain ⟨buf, howns, heq⟩ := searchDrive_eq (d := d) cb findfile depth hi hs
  rw [heq]
  by_cases hfixed : d.getDriveType (cstr (rootOf i)) = DRIVE_FIXED
  · rw [if_pos hfixed, if_pos hfixed]
    exact volsearch_spec cb hfile depth (rootOf i) (Nat.le_refl 3) (nonul_rootOf hi) (hfits hfixed)
      { s with curpath := buf } howns
  · rw [if_neg hfixed, if_neg hfixed]
    exact ⟨_, rfl, howns, (List.append_nil _).symm⟩

/-- One bit of `GetLogicalDrives()`. -/
theorem driveTurn_spec (hfile : findfile.val ≠ []) {i : Nat} (hi : i < 32)
    (hfits : FixedDrive d getLogicalDrives i → 3 + findfile.length ≤ MAX_PATH) :
    Finds (rootOf i) ((if FixedDrive d getLogicalDrives i then [rootOf i] else []).flatMap (searched d findfile depth))
      fun s => if getLogicalDrives.toNat.testBit i then searchDrive d cb findfile depth s else some s := by
  by_cases hbit : getLogicalDrives.toNat.testBit i = true
  · have hfixed : FixedDrive d getLogicalDrives i ↔ d.getDriveType (cstr (rootOf i)) = DRIVE_FIXED := and_iff_right hbit
    have hhits : (if FixedDrive d getLogicalDrives i then [rootOf i] else []).flatMap (searched d findfile depth) =
        if d.getDriveType (cstr (rootOf i)) = DRIVE_FIXED then searched d findfile depth (rootOf i) else [] := by
      simp only [hfixed]
      split <;> simp
    rw [hhits]
    simp only [hbit, if_true]
    exact searchDrive_spec cb hfile hi fun h => hfits (hfixed.mpr h)
  · have hnone : ¬ FixedDrive d getLogicalDrives i := fun h => hbit h.1
    rw [if_neg hnone]
    simp only [if_neg hbit]
    exact finds_nothing (rootOf i)

/-- `++search[0]` -/
theorem nextDrive {i : Nat} {curpath : Bytes} (h : Owns curpath (rootOf i)) :
    ∃ buf, store curpath 0 [curpath.getD 0 0 + 1] = some buf ∧ Owns buf (rootOf (i + 1)) := by
  obtain ⟨⟨rest, rfl⟩, hlen⟩ := h
  have hroom : 0 + [(rootOf i ++ rest).getD 0 0 + 1].length ≤ (rootOf i ++ rest).length := by
    rw [hlen]
    show 0 + 1 ≤ MAX_PATH + 1
    decide
  refine ⟨_, if_pos hroom, ⟨rest, ?_⟩, ?_⟩
  · simp [rootOf, letter_succ]
  · simpa [rootOf] using hlen

theorem fixedRoots_nil {i : Nat} (h : getLogicalDrives.toNat / 2 ^ i = 0) (n : Nat) :
    fixedRoots d getLogicalDrives i n = [] := by
  unfold fixedRoots
  rw [List.map_eq_nil_iff, List.filter_eq_nil_iff]
  intro j hj
  have hlt : getLogicalDrives.toNat < 2 ^ i := Nat.lt_of_div_eq_zero (Nat.two_pow_pos i) h
  have hle : 2 ^ i ≤ 2 ^ j := Nat.pow_le_pow_right (by decide) (List.mem_range'_1.mp hj).1
  simp [FixedDrive, Nat.testBit_lt_two_pow (Nat.lt_of_lt_of_le hlt hle)]

/-- The turn of the loop for the `i`-th drive. -/
theorem driveLoop_turn {i : Nat} (h : getLogicalDrives.toNat / 2 ^ i ≠ 0) (s : Search Attr) :
    driveLoop d cb findfile depth (getLogicalDrives.toNat / 2 ^ i) s =
      ((if getLogicalDrives.toNat.testBit i then searchDrive d cb findfile depth s else some s).bind fun s =>
        (store s.curpath 0 [s.curpath.getD 0 0 + 1]).bind fun curpath =>
          driveLoop d cb findfile depth (getLogicalDrives.toNat / 2 ^ (i + 1)) { s with curpath }) := by
  rw [driveLoop, if_neg h, Nat.div_div_eq_div_mul, ← Nat.pow_succ, Nat.testBit_eq_decide_div_mod_eq]
  simp only [decide_eq_true_eq, Option.bind_eq_bind]

/-- Drive by drive, when the search name fits behind the root of each that is
fixed. -/
theorem driveLoop_spec (hfile : findfile.val ≠ [])
    (hfits : ∀ i < 32, FixedDrive d getLogicalDrives i → 3 + findfile.length ≤ MAX_PATH) :
    ∀ (n i : Nat), i + n = 32 → ∀ {s : Search Attr}, Owns s.curpath (rootOf i) →
      ∃ s', driveLoop d cb findfile depth (getLogicalDrives.toNat / 2 ^ i) s = some s' ∧
        s'.hits = s.hits ++ (fixedRoots d getLogicalDrives i n).flatMap (searched d findfile depth)
  | 0, i, hi, s, _ => by
    have hnone : getLogicalDrives.toNat / 2 ^ i = 0 := by
      rw [Nat.add_zero] at hi
      rw [hi]
      exact Nat.div_eq_of_lt getLogicalDrives.toNat_lt
    refine ⟨s, by rw [driveLoop, if_pos hnone], ?_⟩
    rw [fixedRoots_nil hnone, List.flatMap_nil, List.append_nil]
  | n + 1, i, hi, s, hs => by
    by_cases hnone : getLogicalDrives.toNat / 2 ^ i = 0
    · refine ⟨s, by rw [driveLoop, if_pos hnone], ?_⟩
      rw [fixedRoots_nil hnone, List.flatMap_nil, List.append_nil]
    · obtain ⟨s₁, hs₁, howns₁, hhits₁⟩ := driveTurn_spec cb hfile (by omega) (hfits i (by omega)) s hs
      have hturn : (if getLogicalDrives.toNat.testBit i then searchDrive d cb findfile depth s else some s) = some s₁ := hs₁
      obtain ⟨buf, hbuf, howns⟩ := nextDrive howns₁
      obtain ⟨s₂, hs₂, hhits₂⟩ := driveLoop_spec hfile hfits n (i + 1) (by omega) (s := { s₁ with curpath := buf }) howns
      refine ⟨s₂, ?_, ?_⟩
      · rw [driveLoop_turn cb hnone, hturn, Option.bind_some, hbuf, Option.bind_some, hs₂]
      · rw [hhits₂, hhits₁, fixedRoots_succ, List.flatMap_append, List.append_assoc]

/-- A search name that does not fit is written past the end of the array. -/
theorem volsearch_outside {i : Nat} (hlong : MAX_PATH < 3 + findfile.length) {s : Search Attr}
    (hs : Owns s.curpath (rootOf i)) : volsearch d cb findfile depth 3 s = none := by
  have hstore : store s.curpath 3 (findfile.val ++ [0]) = none := by
    refine store_outside ?_
    rw [hs.length, List.length_append, List.length_singleton]
    unfold CString.length at hlong
    omega
  have hlook : lookHere d cb findfile 3 s = none := by
    unfold lookHere closePath
    rw [if_neg (by decide)]
    simp only [Option.bind_eq_bind, Option.bind_some, hstore, Option.bind_none]
  cases depth <;> simp only [volsearch, hlook, Option.bind_eq_bind, Option.bind_none]

/-- The loop does not get past a fixed drive then. -/
theorem driveLoop_outside (hlong : MAX_PATH < 3 + findfile.length) :
    ∀ (n i : Nat), i + n = 32 → (∃ j, i ≤ j ∧ j < 32 ∧ FixedDrive d getLogicalDrives j) → ∀ {s : Search Attr},
      Owns s.curpath (rootOf i) → driveLoop d cb findfile depth (getLogicalDrives.toNat / 2 ^ i) s = none
  | 0, i, hi, ⟨j, hij, hj, _⟩, _, _ => by omega
  | n + 1, i, hi, ⟨j, hij, hj, hfixed⟩, s, hs => by
    have hsome : getLogicalDrives.toNat / 2 ^ i ≠ 0 := by
      intro hnone
      have hmem : rootOf j ∈ fixedRoots d getLogicalDrives i (n + 1) :=
        List.mem_map_of_mem (List.mem_filter.mpr ⟨List.mem_range'_1.mpr ⟨hij, by omega⟩, decide_eq_true hfixed⟩)
      rw [fixedRoots_nil hnone] at hmem
      cases hmem
    rw [driveLoop_turn cb hsome]
    by_cases hbit : getLogicalDrives.toNat.testBit i = true
    · obtain ⟨buf, howns, heq⟩ := searchDrive_eq (d := d) cb findfile depth (by omega) hs
      rw [if_pos hbit, heq]
      by_cases htype : d.getDriveType (cstr (rootOf i)) = DRIVE_FIXED
      · rw [if_pos htype, volsearch_outside cb hlong (s := { s with curpath := buf }) howns, Option.bind_none]
      · have hne : j ≠ i := fun e => htype (e ▸ hfixed.2)
        obtain ⟨buf', hbuf', howns'⟩ := nextDrive howns
        rw [if_neg htype, Option.bind_some, hbuf', Option.bind_some]
        exact driveLoop_outside hlong n (i + 1) (by omega) ⟨j, by omega, hj, hfixed⟩ howns'
    · have hne : j ≠ i := fun e => hbit (e ▸ hfixed.1)
      obtain ⟨buf', hbuf', howns'⟩ := nextDrive hs
      rw [if_neg hbit, Option.bind_some, hbuf', Option.bind_some]
      exact driveLoop_outside hlong n (i + 1) (by omega) ⟨j, by omega, hj, hfixed⟩ howns'

end

/-! ## Each directory once -/

section
variable {Attr : Type} (d : Disk Attr) (findfile : CString)

/-- A directory `n` levels below another, each on the way meeting the test on
the length of its path. -/
inductive Within (top : Bytes) : Nat → Bytes → Prop
  | top : Fits findfile top → Within top 0 top
  | sub {n dir e} : Within top n dir → e ∈ listing d dir → IsSubdirectory e →
    Fits findfile (dir ++ e.cFileName.val ++ [92]) → Within top (n + 1) (dir ++ e.cFileName.val ++ [92])

/-- The same, from the top. -/
theorem within_succ {top dir : Bytes} {n : Nat} : Within d findfile top (n + 1) dir ↔
    Fits findfile top ∧ ∃ e ∈ listing d top, IsSubdirectory e ∧
      Within d findfile (top ++ e.cFileName.val ++ [92]) n dir := by
  constructor
  · intro h
    induction n generalizing dir with
    | zero =>
      cases h with
      | sub hn he hsub hfits =>
        cases hn with
        | top htop => exact ⟨htop, _, he, hsub, .top hfits⟩
    | succ n ih =>
      cases h with
      | sub hn he hsub hfits =>
        obtain ⟨htop, e', he', hsub', hin⟩ := ih hn
        exact ⟨htop, e', he', hsub', .sub hin he hsub hfits⟩
  · rintro ⟨htop, e, he, hsub, hin⟩
    induction hin with
    | top hfits => exact .sub (.top htop) he hsub hfits
    | sub _ he' hsub' hfits' ih => exact .sub ih he' hsub' hfits'

theorem mem_subdirs {top sub : Bytes} :
    sub ∈ subdirs d top ↔ ∃ e ∈ listing d top, IsSubdirectory e ∧ sub = top ++ e.cFileName.val ++ [92] := by
  simp only [subdirs, List.mem_map, List.mem_filter, decide_eq_true_eq]
  constructor
  · rintro ⟨e, ⟨he, hsub⟩, rfl⟩
    exact ⟨e, he, hsub, rfl⟩
  · rintro ⟨e, he, hsub, rfl⟩
    exact ⟨e, ⟨he, hsub⟩, rfl⟩

/-- The list has the search file of every directory within reach, and nothing else. -/
theorem mem_searched (depth : Nat) (top : Bytes) (hit : Hit Attr) : hit ∈ searched d findfile depth top ↔
    ∃ n dir, n ≤ depth ∧ Within d findfile top n dir ∧ hit ∈ hitsAt d findfile dir := by
  induction depth generalizing top with
  | zero =>
    unfold searched
    constructor
    · intro h
      split at h
      · rename_i hfits; exact ⟨0, top, Nat.le_refl 0, .top hfits, h⟩
      · cases h
    · rintro ⟨n, dir, hn, hin, hhit⟩
      obtain rfl : n = 0 := by omega
      cases hin with
      | top hfits => rwa [if_pos hfits]
  | succ depth ih =>
    unfold searched
    constructor
    · intro h
      split at h
      · rename_i hfits
        rcases List.mem_append.mp h with h | h
        · exact ⟨0, top, Nat.zero_le _, .top hfits, h⟩
        · obtain ⟨sub, hsub, hhit⟩ := List.mem_flatMap.mp h
          obtain ⟨e, he, hdir, rfl⟩ := (mem_subdirs d).mp hsub
          obtain ⟨n, dir, hn, hin, hmem⟩ := (ih _).mp hhit
          exact ⟨n + 1, dir, by omega, (within_succ d findfile).mpr ⟨hfits, e, he, hdir, hin⟩, hmem⟩
      · cases h
    · rintro ⟨n, dir, hn, hin, hhit⟩
      cases n with
      | zero =>
        cases hin with
        | top hfits =>
          rw [if_pos hfits]
          exact List.mem_append_left _ hhit
      | succ n =>
        obtain ⟨hfits, e, he, hdir, hin'⟩ := (within_succ d findfile).mp hin
        rw [if_pos hfits]
        refine List.mem_append_right _ (List.mem_flatMap.mpr ⟨_, (mem_subdirs d).mpr ⟨e, he, hdir, rfl⟩, ?_⟩)
        exact (ih _).mpr ⟨n, dir, by omega, hin', hhit⟩

/-- The directory part of the path given to the callback. -/
def Hit.dir {Attr : Type} (hit : Hit Attr) : Bytes := hit.path.val.take hit.len

theorem hitsAt_iff {dir : Bytes} (hnul : 0 ∉ dir) (hit : Hit Attr) : hit ∈ hitsAt d findfile dir ↔
    d.getFileAttributesEx (cstr (dir ++ findfile.val)) = some hit.fi ∧ hit.path.val = dir ++ findfile.val ∧
      hit.len = dir.length := by
  have hval : (cstr (dir ++ findfile.val)).val = dir ++ findfile.val :=
    cstr_of_nonul (by simp [hnul, findfile.nonul])
  unfold hitsAt
  cases d.getFileAttributesEx (cstr (dir ++ findfile.val)) with
  | none => simp
  | some fi =>
    rw [List.mem_singleton]
    constructor
    · rintro rfl; exact ⟨rfl, hval, rfl⟩
    · rintro ⟨hfi, hpath, hlen⟩
      obtain ⟨path, len, fi'⟩ := hit
      obtain rfl : fi = fi' := Option.some.inj hfi
      obtain rfl : len = dir.length := hlen
      obtain rfl : path = cstr (dir ++ findfile.val) := CString.ext_val (hpath.trans hval.symm)
      rfl

theorem hitsAt_dir {dir : Bytes} (hnul : 0 ∉ dir) {hit : Hit Attr} (h : hit ∈ hitsAt d findfile dir) : hit.dir = dir := by
  obtain ⟨-, hpath, hlen⟩ := (hitsAt_iff d findfile hnul hit).mp h
  rw [Hit.dir, hpath, hlen, List.take_left]

theorem nonul_sub {dir : Bytes} (h : 0 ∉ dir) (e : FindData) : 0 ∉ dir ++ e.cFileName.val ++ [92] := by
  simp [h, e.cFileName.nonul]

/-- Whatever is found below a directory has its path before it. -/
theorem searched_dir {depth : Nat} {dir : Bytes} (hnul : 0 ∉ dir) : ∀ hit ∈ searched d findfile depth dir,
    dir <+: hit.dir := by
  induction depth generalizing dir with
  | zero =>
    intro hit hmem
    unfold searched at hmem
    split at hmem
    · rw [hitsAt_dir d findfile hnul hmem]
    · cases hmem
  | succ depth ih =>
    intro hit hmem
    unfold searched at hmem
    split at hmem
    · rcases List.mem_append.mp hmem with hmem | hmem
      · rw [hitsAt_dir d findfile hnul hmem]
      · obtain ⟨sub, hsub, hhit⟩ := List.mem_flatMap.mp hmem
        obtain ⟨e, -, rfl⟩ := List.mem_map.mp hsub
        refine List.IsPrefix.trans ?_ (ih (nonul_sub hnul e) hit hhit)
        rw [List.append_assoc]
        exact List.prefix_append _ _
    · cases hmem

/-- Two names closed by a backslash that begin one path are the same. -/
theorem segment_unique {e e' : FindData} {dir path : Bytes} (h : dir ++ e.cFileName.val ++ [92] <+: path)
    (h' : dir ++ e'.cFileName.val ++ [92] <+: path) : e.cFileName.val = e'.cFileName.val := by
  have key : ∀ {a b : FindData}, dir ++ a.cFileName.val ++ [92] <+: path → dir ++ b.cFileName.val ++ [92] <+: path →
      a.cFileName.val.length ≤ b.cFileName.val.length → a.cFileName.val = b.cFileName.val := by
    intro a b ha hb hle
    have hpre := List.prefix_of_prefix_length_le ha hb (by simp only [List.length_append]; omega)
    rw [List.append_assoc, List.append_assoc, List.prefix_append_right_inj] at hpre
    obtain ⟨t, ht⟩ := hpre
    rw [List.append_assoc, List.singleton_append] at ht
    rcases Nat.lt_or_eq_of_le hle with hlt | heq
    · -- the backslash would stand in the longer name
      have hin : (92 : UInt8) ∈ b.cFileName.val := by
        have := congrArg (fun l => l[a.cFileName.val.length]?) ht
        simp only [List.getElem?_append_right (Nat.le_refl _), Nat.sub_self, List.getElem?_cons_zero,
          List.getElem?_append_left hlt] at this
        exact List.mem_of_getElem? this.symm
      exact absurd hin b.segment
    · exact (List.append_inj ht heq).1
  rcases Nat.le_total e.cFileName.val.length e'.cFileName.val.length with hle | hle
  · exact key h h' hle
  · exact (key h' h hle).symm

theorem hitsAt_nodup (dir : Bytes) : ((hitsAt d findfile dir).map Hit.dir).Nodup := by
  unfold hitsAt
  split
  · exact List.nodup_nil
  · exact List.nodup_singleton _

/-- No directory is found twice below another. -/
theorem searched_nodup (depth : Nat) {dir : Bytes} (hnul : 0 ∉ dir) :
    ((searched d findfile depth dir).map Hit.dir).Nodup := by
  induction depth generalizing dir with
  | zero =>
    unfold searched
    split
    · exact hitsAt_nodup d findfile dir
    · exact List.nodup_nil
  | succ depth ih =>
    unfold searched
    split
    · rw [List.map_append, List.map_flatMap, List.nodup_append]
      refine ⟨hitsAt_nodup d findfile dir, List.nodup_flatMap.mpr ⟨?_, ?_⟩, ?_⟩
      · intro sub hsub
        obtain ⟨e, -, rfl⟩ := List.mem_map.mp hsub
        exact ih (nonul_sub hnul e)
      · -- two subdirectories have different names
        have hnames := List.pairwise_map.mp (d.distinct (cstr (dir ++ [42])))
        refine List.pairwise_map.mpr ((hnames.filter _).imp fun {e e'} hne => ?_)
        intro x hx hx'
        obtain ⟨hit, hmem, rfl⟩ := List.mem_map.mp hx
        obtain ⟨hit', hmem', heq⟩ := List.mem_map.mp hx'
        have hpre := searched_dir d findfile (nonul_sub hnul e) hit hmem
        have hpre' := searched_dir d findfile (nonul_sub hnul e') hit' hmem'
        rw [heq] at hpre'
        exact hne (segment_unique hpre hpre')
      · -- and each of them has a longer path than the directory
        intro x hx y hy
        obtain ⟨hit, hmem, rfl⟩ := List.mem_map.mp hx
        obtain ⟨sub, hsub, hy⟩ := List.mem_flatMap.mp hy
        obtain ⟨e, -, rfl⟩ := List.mem_map.mp hsub
        obtain ⟨hit', hmem', rfl⟩ := List.mem_map.mp hy
        have hlen := (searched_dir d findfile (nonul_sub hnul e) hit' hmem').length_le
        rw [hitsAt_dir d findfile hnul hmem]
        intro heq
        rw [← heq] at hlen
        simp only [List.length_append, List.length_singleton] at hlen
        omega
    · exact List.nodup_nil

theorem within_nonul {top dir : Bytes} {n : Nat} (hnul : 0 ∉ top) (h : Within d findfile top n dir) : 0 ∉ dir := by
  induction h with
  | top _ => exact hnul
  | sub _ _ _ _ ih => exact nonul_sub ih _

end

/-! ## The search -/

/-- What `findfile` can be. -/
structure SearchName where
  name : CString
  nonempty : name.val ≠ []

section
variable {Attr : Type} (d : Disk Attr) (findfile : SearchName) (depth : Nat) (getLogicalDrives : UInt32)

/-- The calls are those for the directories within reach of a fixed drive that
have the search file: in pre-order, all of them, and each once. -/
structure SearchExact (log : List (Hit Attr)) : Prop where
  order : log = (fixedRoots d getLogicalDrives 0 32).flatMap (searched d findfile.name depth)
  found : ∀ hit, hit ∈ log ↔ ∃ i < 32, FixedDrive d getLogicalDrives i ∧
    ∃ n dir, n ≤ depth ∧ Within d findfile.name (rootOf i) n dir ∧
      d.getFileAttributesEx (cstr (dir ++ findfile.name.val)) = some hit.fi ∧
      hit.path.val = dir ++ findfile.name.val ∧ hit.len = dir.length
  once : (log.map Hit.dir).Nodup

theorem mem_fixedRoots (top : Bytes) : top ∈ fixedRoots d getLogicalDrives 0 32 ↔
    ∃ i < 32, FixedDrive d getLogicalDrives i ∧ top = rootOf i := by
  simp only [fixedRoots, List.mem_map, List.mem_filter, List.mem_range'_1, decide_eq_true_eq]
  constructor
  · rintro ⟨i, ⟨⟨-, hi⟩, hfixed⟩, rfl⟩
    exact ⟨i, by omega, hfixed, rfl⟩
  · rintro ⟨i, hi, hfixed, rfl⟩
    exact ⟨i, ⟨⟨Nat.zero_le i, by omega⟩, hfixed⟩, rfl⟩

/-- Drives have different letters. -/
theorem root_unique {i j : Nat} (hi : i < 32) (hj : j < 32) {path : Bytes} (h : rootOf i <+: path)
    (h' : rootOf j <+: path) : i = j := by
  have hroot := (List.prefix_of_prefix_length_le h h' (Nat.le_refl 3)).eq_of_length rfl
  have hletter := congrArg UInt8.toNat (List.cons.inj hroot).1
  rw [letter_toNat hi, letter_toNat hj] at hletter
  omega

/-- The list over all fixed drives is exact. -/
theorem searchExact_list :
    SearchExact d findfile depth getLogicalDrives
      ((fixedRoots d getLogicalDrives 0 32).flatMap (searched d findfile.name depth)) where
  order := rfl
  found hit := by
    rw [List.mem_flatMap]
    constructor
    · rintro ⟨top, htop, hmem⟩
      obtain ⟨i, hi, hfixed, rfl⟩ := (mem_fixedRoots d getLogicalDrives top).mp htop
      obtain ⟨n, dir, hn, hin, hhit⟩ := (mem_searched d findfile.name depth _ hit).mp hmem
      have hnul := within_nonul d findfile.name (nonul_rootOf hi) hin
      exact ⟨i, hi, hfixed, n, dir, hn, hin, (hitsAt_iff d findfile.name hnul hit).mp hhit⟩
    · rintro ⟨i, hi, hfixed, n, dir, hn, hin, hhit⟩
      have hnul := within_nonul d findfile.name (nonul_rootOf hi) hin
      refine ⟨rootOf i, (mem_fixedRoots d getLogicalDrives _).mpr ⟨i, hi, hfixed, rfl⟩, ?_⟩
      exact (mem_searched d findfile.name depth _ hit).mpr
        ⟨n, dir, hn, hin, (hitsAt_iff d findfile.name hnul hit).mpr hhit⟩
  once := by
    rw [List.map_flatMap]
    refine List.nodup_flatMap.mpr ⟨fun top htop => ?_, ?_⟩
    · obtain ⟨i, hi, -, rfl⟩ := (mem_fixedRoots d getLogicalDrives top).mp htop
      exact searched_nodup d findfile.name depth (nonul_rootOf hi)
    · have hrange : ((List.range' 0 32).filter fun j => decide (FixedDrive d getLogicalDrives j)).Nodup :=
        List.Nodup.filter _ List.nodup_range'
      refine List.pairwise_map.mpr (hrange.imp_of_mem fun {i j} hi hj hne => ?_)
      have hi' := (List.mem_range'_1.mp (List.mem_filter.mp hi).1).2
      have hj' := (List.mem_range'_1.mp (List.mem_filter.mp hj).1).2
      intro x hx hx'
      obtain ⟨hit, hmem, rfl⟩ := List.mem_map.mp hx
      obtain ⟨hit', hmem', heq⟩ := List.mem_map.mp hx'
      have hpre := searched_dir d findfile.name (nonul_rootOf (by omega)) hit hmem
      have hpre' := searched_dir d findfile.name (nonul_rootOf (by omega)) hit' hmem'
      rw [heq] at hpre'
      exact hne (root_unique (by omega) (by omega) hpre hpre')

/-- The array `search`, with whatever the stack has in it. -/
abbrev Stack := { bytes : Bytes // bytes.length = MAX_PATH + 1 }

theorem owns_stack (stack : Stack) : Owns stack.val [] := ⟨List.nil_prefix, stack.property⟩

theorem drsearch_start (cb : FileSearch Attr) (stack : Stack) : ∃ search, Owns search (rootOf 0) ∧
    drsearch d cb findfile.name depth getLogicalDrives stack.val =
      driveLoop d cb findfile.name depth (getLogicalDrives.toNat / 2 ^ 0) ⟨search, []⟩ := by
  obtain ⟨search, hsearch, howns⟩ := (owns_stack stack).store [65, 58, 92] (by decide)
  refine ⟨search, howns, ?_⟩
  have hstore : store stack.val 0 [65, 58, 92] = some search := hsearch
  unfold drsearch
  rw [hstore, Option.bind_eq_bind, Option.bind_some, Nat.pow_zero, Nat.div_one]

/-- Where the search name fits behind the root of each fixed drive, the search
goes through, and calls back for what is below them. -/
theorem drsearch_hits (cb : FileSearch Attr) (stack : Stack)
    (hfits : ∀ i < 32, FixedDrive d getLogicalDrives i → 3 + findfile.name.length ≤ MAX_PATH) :
    ∃ s, drsearch d cb findfile.name depth getLogicalDrives stack.val = some s ∧
      s.hits = (fixedRoots d getLogicalDrives 0 32).flatMap (searched d findfile.name depth) := by
  obtain ⟨search, howns, hstart⟩ := drsearch_start d findfile depth getLogicalDrives cb stack
  obtain ⟨s, hs, hhits⟩ := driveLoop_spec (d := d) cb findfile.nonempty hfits 32 0 rfl (s := ⟨search, []⟩) howns
  exact ⟨s, hstart.trans hs, hhits⟩

/-- For every set of drives, every disk, every search name, every depth and
every callback: the search is complete and exact exactly when the search name
fits behind a root, or no drive is fixed. -/
theorem drsearch_exact_iff (cb : FileSearch Attr) (stack : Stack) :
    (∃ s, drsearch d cb findfile.name depth getLogicalDrives stack.val = some s ∧
        SearchExact d findfile depth getLogicalDrives s.hits) ↔
      3 + findfile.name.length ≤ MAX_PATH ∨ ∀ i < 32, ¬ FixedDrive d getLogicalDrives i := by
  constructor
  · rintro ⟨s, hs, -⟩
    obtain ⟨search, howns, hstart⟩ := drsearch_start d findfile depth getLogicalDrives cb stack
    by_contra h
    obtain ⟨hlong, hfixed⟩ := not_or.mp h
    obtain ⟨i, hi, hfixed⟩ : ∃ i, i < 32 ∧ FixedDrive d getLogicalDrives i := by
      by_contra hnone
      exact hfixed fun i hi hf => hnone ⟨i, hi, hf⟩
    rw [hstart, driveLoop_outside cb (by omega) 32 0 rfl ⟨i, Nat.zero_le i, hi, hfixed⟩ howns] at hs
    cases hs
  · intro h
    obtain ⟨s, hs, hhits⟩ := drsearch_hits d findfile depth getLogicalDrives cb stack fun i hi hfixed =>
      h.resolve_right fun hnone => hnone i hi hfixed
    refine ⟨s, hs, ?_⟩
    rw [hhits]
    exact searchExact_list d findfile depth getLogicalDrives

end

/-! ## Inside the array -/

section
variable {Attr : Type} (d : Disk Attr)

theorem hitsAt_len (findfile : CString) (dir : Bytes) : ∀ hit ∈ hitsAt d findfile dir, hit.len = dir.length := by
  intro hit hmem
  unfold hitsAt at hmem
  split at hmem
  · cases hmem
  · rw [List.mem_singleton.mp hmem]

/-- Behind each position given to the callback there was room for the search name. -/
theorem searched_len (findfile : CString) (depth : Nat) (dir : Bytes) : ∀ hit ∈ searched d findfile depth dir,
    hit.len + findfile.length ≤ MAX_PATH := by
  induction depth generalizing dir with
  | zero =>
    intro hit hmem
    unfold searched at hmem
    split at hmem
    · rename_i hfits
      rw [hitsAt_len d findfile dir hit hmem]
      exact hfits
    · cases hmem
  | succ depth ih =>
    intro hit hmem
    unfold searched at hmem
    split at hmem
    · rename_i hfits
      rcases List.mem_append.mp hmem with hmem | hmem
      · rw [hitsAt_len d findfile dir hit hmem]
        exact hfits
      · obtain ⟨sub, -, hmem⟩ := List.mem_flatMap.mp hmem
        exact ih sub hit hmem
    · cases hmem

/-- For every disk, every search name that fits behind a root, every depth,
every set of drives and every callback: no write of the search is past the end
of the array, and no position given to the callback is. -/
theorem drsearch_inside (findfile : SearchName) (depth : Nat) (getLogicalDrives : UInt32) (cb : FileSearch Attr)
    (stack : Stack) (hfits : 3 + findfile.name.length ≤ MAX_PATH) :
    ∃ s, drsearch d cb findfile.name depth getLogicalDrives stack.val = some s ∧ ∀ hit ∈ s.hits, hit.len ≤ MAX_PATH := by
  obtain ⟨s, hs, hhits⟩ := drsearch_hits d findfile depth getLogicalDrives cb stack fun _ _ _ => hfits
  refine ⟨s, hs, fun hit hmem => ?_⟩
  rw [hhits] at hmem
  obtain ⟨top, -, hmem⟩ := List.mem_flatMap.mp hmem
  exact (Nat.le_add_right _ _).trans (searched_len d findfile.name depth top hit hmem)

end

/-- The array before the search. -/
def clearedStack : Stack := ⟨List.replicate 261 0, List.length_replicate⟩

/-- `bin\httpd.exe` -/
def httpd : SearchName := ⟨⟨lit "bin\\httpd.exe", by decide⟩, by decide⟩

/-- The directory `Apache` of a listing. -/
def apacheEntry : FindData := ⟨⟨lit "Apache", by decide⟩, FILE_ATTRIBUTE_DIRECTORY, by decide, by decide⟩

/-- A fixed drive with one installation. -/
def apacheDisk : Disk Unit where
  getDriveType _ := DRIVE_FIXED
  getFileAttributesEx path := if path.val = lit "A:\\Apache\\bin\\httpd.exe" then some () else none
  findFirstFileEx path := if path.val = lit "A:\\*" then [apacheEntry] else []
  distinct path := by split <;> simp

theorem drsearch_inside_httpd :
    ∃ s, drsearch apacheDisk (cbResolver fun _ => true) httpd.name 3 1 clearedStack.val = some s ∧
      ∀ hit ∈ s.hits, hit.len ≤ MAX_PATH :=
  drsearch_inside apacheDisk httpd 3 1 (cbResolver fun _ => true) clearedStack (by decide)

/-! ## A long search name -/

/-- One fixed drive, with nothing on it. -/
def emptyDisk : Disk Unit := ⟨fun _ => DRIVE_FIXED, fun _ => none, fun _ => [], fun _ => List.nodup_nil⟩

/-- One character more than fits behind `A:\`. -/
def longName : SearchName where
  name := ⟨List.replicate 258 97, fun h => absurd (List.eq_of_mem_replicate h) (by decide)⟩
  nonempty := List.cons_ne_nil 97 (List.replicate 257 97)

theorem longName_length : MAX_PATH < 3 + longName.name.length := by
  have h : longName.name.length = 258 := by
    unfold CString.length longName
    exact List.length_replicate
  rw [h]
  decide

/-- The root's own part is written past the end of `search[MAX_PATH + 1]`. -/
theorem search_name_overflows : ¬ ∀ (Attr : Type) (d : Disk Attr) (findfile : SearchName) (depth : Nat)
    (getLogicalDrives : UInt32) (cb : FileSearch Attr) (stack : Stack),
    ∃ s, drsearch d cb findfile.name depth getLogicalDrives stack.val = some s ∧
      SearchExact d findfile depth getLogicalDrives s.hits := by
  intro h
  let cb : FileSearch Unit := cbResolver fun _ => true
  obtain ⟨s, hs, -⟩ := h Unit emptyDisk longName 3 1 cb clearedStack
  obtain ⟨search, howns, hstart⟩ := drsearch_start emptyDisk longName 3 1 cb clearedStack
  have hfixed : FixedDrive emptyDisk 1 0 := ⟨by decide, rfl⟩
  rw [hstart, driveLoop_outside cb longName_length 32 0 rfl ⟨0, Nat.le_refl 0, by decide, hfixed⟩ howns] at hs
  cases hs

end ModAspNet.L7.QuickSearch
