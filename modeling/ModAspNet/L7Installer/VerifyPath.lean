import ModAspNet.L7Installer.DriveSearch

/-!
# A path chosen by the user

`VerifyApachePath` (`msi_dll/resolve_apache.c`) reads the property `INSTALLDIR`
into `str[MAX_PATH + 1]`, closes it with a backslash, looks for `bin\httpd.exe`
behind it, and offers the directory in the combo box of the dialog
(`tryAddPath`, `cbResolver`). `_BadPath` tells the dialog how it went.

What the MSI calls answer enters as data; `inserted` records the rows that
`cbResolver` tried to insert, and no function reads it. An access to `str`
outside of the array is `none`.

* `tryAddPath_spec`: what it leaves of the session (`tried`).
* `closeDir_spec`, `verify_present`: the array step by step.
* `verify_right_iff`: the function is safe and right exactly when the value is
  not the empty string.
-/
namespace ModAspNet.L7.VerifyPath

open ModAspNet.L1.CStr ModAspNet.L7.QuickSearch

/-! ## The session -/

/-- A row of the `ComboBox` table; its primary key is (Property, Order). `Order`
comes from an `int`, see `addHits_index`. -/
structure Row where
  Property : CString
  Order : Int
  Value : CString
  deriving DecidableEq

def Row.key (r : Row) : CString × Int := (r.Property, r.Order)

/-- The two properties, the target path of the directory `INSTALLDIR`, and the
table. -/
structure Session where
  INSTALLDIR : CString
  badPath : CString
  targetPath : Option CString
  comboBox : List Row
  inserted : List Row

/-- `"0"` -/
def zero : CString := ⟨lit "0", by decide⟩

/-- `"1"` -/
def one : CString := ⟨lit "1", by decide⟩

/-- `combo` -/
def combo : CString := ⟨lit "INSTALLDIR", by decide⟩

/-- `MsiSetTargetPath(hInstall, "INSTALLDIR", path)`, which sets the property of
the directory, too. -/
def msiSetTargetPath (success : Bool) (path : CString) (m : Session) : Session :=
  if success then { m with targetPath := some path, INSTALLDIR := path } else m

@[simp] theorem msiSetTargetPath_comboBox (success : Bool) (path : CString) (m : Session) :
    (msiSetTargetPath success path m).comboBox = m.comboBox := by
  unfold msiSetTargetPath
  split <;> rfl

@[simp] theorem msiSetTargetPath_inserted (success : Bool) (path : CString) (m : Session) :
    (msiSetTargetPath success path m).inserted = m.inserted := by
  unfold msiSetTargetPath
  split <;> rfl

/-- The primary key of `row` is not in the table. -/
def KeyFree (rows : List Row) (row : Row) : Prop := ∀ r ∈ rows, r.key ≠ row.key

instance (rows : List Row) (row : Row) : Decidable (KeyFree rows row) := inferInstanceAs (Decidable (∀ r ∈ rows, _))

/-- `MsiViewModify(hView, MSIMODIFY_INSERT_TEMPORARY, rec)`: a row whose key is
there already is refused. -/
def msiViewModify (success : Bool) (row : Row) (m : Session) : Session :=
  { m with
    comboBox := if success = true ∧ KeyFree m.comboBox row then m.comboBox ++ [row] else m.comboBox
    inserted := m.inserted ++ [row] }

/-! ## `cbResolver` -/

/-- What MSI answers to the calls of `cbResolver`. -/
structure RowAnswers where
  createRecord : Bool
  setTargetPath : Bool
  viewModify : Bool

/-- With the path up to `len`, and the new `wrk->index`.
mirrors msi_dll/resolve_apache.c:41-71 -/
def addRow (a : RowAnswers) (path : CString) (index : Int) (m : Session) : Session × Int :=
  if !a.createRecord then (m, index)
  else
    let m := if index = 0 then msiSetTargetPath a.setTargetPath path { m with badPath := zero, INSTALLDIR := path } else m
    (msiViewModify a.viewModify ⟨combo, index + 1, path⟩ m, index + 1)

/-! ## `tryAddPath` -/

/-- What `MsiViewFetch` returns. -/
inductive Fetch where
  | success
  | noMoreItems
  | failed
  deriving DecidableEq

/-- What MSI answers to the calls of `VerifyApachePath` and of those it calls. -/
structure Answers where
  getProperty : Bool
  setTargetPath : Bool
  getActiveDatabase : Bool
  openView : Bool
  viewFetch : Fetch
  row : RowAnswers

/-- mirrors msi_dll/resolve_apache.c:102-144 -/
def tryAddPath (a : Answers) (str : Bytes) (len : Nat) (m : Session) : Option (Bytes × Session) := do
  let str ← store str len [0]
  if !a.getActiveDatabase then some (str, m)
  else
    let m := { m with badPath := one }
    if !a.openView then some (str, m)
    else match a.viewFetch with
      | .noMoreItems =>
        -- `path[len] = '\0'` once more, if there is a record
        let path ← if a.row.createRecord then store str len [0] else some str
        some (path, (addRow a.row (cstr path) 0 m).1)
      | _ => some (str, m)

/-! ## `VerifyApachePath` -/

/-- `"bin\\" stringize(BINARY)` -/
def chkfile : CString := httpd.name

/-- `sizeof(chkfile)` -/
def sizeofChkfile : Nat := chkfile.length + 1

/-- `len - 1`; a `DWORD` has 32 bits. -/
def dwordPred (len : Nat) : Nat := (len + 4294967295) % 4294967296

/-- `strcpy_s(buf + off, size, src)` of the release run-time, which goes by the
`size` it is told and ends the process when `src` does not fit (the debug one
fills all of `size` up). -/
def strcpyS (buf : Bytes) (off size : Nat) (src : CString) : Option Bytes :=
  if src.length < size then store buf off (src.val ++ [0]) else none

/-- Reads `buf[i]`; `none` outside of the array. -/
def load (buf : Bytes) (i : Nat) : Option UInt8 := buf[i]?

/-- A backslash at the end if there is none, with the new `len`.
mirrors msi_dll/resolve_apache.c:162-166 -/
def closeDir (str : Bytes) (len : Nat) (m : Session) : Option (Bytes × Nat × Session) := do
  let last ← load str (dwordPred len)
  if last ≠ 92 then
    let str ← store str len [92]
    let str ← store str (len + 1) [0]
    some (str, len + 1, { m with INSTALLDIR := cstr str })
  else some (str, len, m)

/-- `str` has `stack` in it when the function begins.
mirrors msi_dll/resolve_apache.c:146-180 -/
def verifyApachePath (a : Answers) (getFileAttributesEx : CString → Bool) (stack : Bytes) (m : Session) :
    Option Session :=
  if !(a.getProperty && decide (m.INSTALLDIR.length < MAX_PATH)) then some { m with badPath := one }
  else do
    let str ← store stack 0 (m.INSTALLDIR.val ++ [0])
    if m.INSTALLDIR.length + sizeofChkfile > MAX_PATH then some { m with badPath := one }
    else
      let (str, len, m) ← closeDir str (cstr str).length m
      let str ← strcpyS str len MAX_PATH chkfile
      if !getFileAttributesEx (cstr str) then some { m with badPath := one }
      else
        let str ← store str len [0]
        let m := msiSetTargetPath a.setTargetPath (cstr str) m
        let (_, m) ← tryAddPath a str len m
        some { m with badPath := zero }

/-! ## The property -/

/-- The value of `INSTALLDIR` with one backslash added when the last character
is not one. -/
def installPath (value : CString) : CString where
  val := if value.val.getLast? = some 92 then value.val else value.val ++ [92]
  nonul := by
    have := value.nonul
    split
    · exact this
    · simp [this]

/-- The value can be read, fits with `bin\httpd.exe`, and the file exists. -/
structure Present (a : Answers) (getFileAttributesEx : CString → Bool) (value : CString) : Prop where
  readable : a.getProperty = true ∧ value.length < MAX_PATH
  fits : value.length + sizeofChkfile ≤ MAX_PATH
  file : getFileAttributesEx (cstr ((installPath value).val ++ chkfile.val)) = true

/-- The session `m'` left by the function is right. -/
structure RightAfter (a : Answers) (getFileAttributesEx : CString → Bool) (value : CString) (m' : Session) : Prop where
  good : m'.badPath = zero ↔ Present a getFileAttributesEx value
  dir : Present a getFileAttributesEx value → m'.INSTALLDIR = installPath value
  bad : ¬ Present a getFileAttributesEx value → m'.badPath = one

/-- The function stays inside the array, and is right. -/
def Right (a : Answers) (getFileAttributesEx : CString → Bool) (stack : Stack) (m : Session) : Prop :=
  ∃ m', verifyApachePath a getFileAttributesEx stack.val m = some m' ∧
    RightAfter a getFileAttributesEx m.INSTALLDIR m'

/-! ## `tryAddPath` inside the array -/

/-- What `tryAddPath` leaves of the session. -/
def tried (a : Answers) (path : CString) (m : Session) : Session :=
  if !a.getActiveDatabase then m
  else
    let m := { m with badPath := one }
    if !a.openView then m
    else match a.viewFetch with
      | .noMoreItems => (addRow a.row path 0 m).1
      | _ => m

theorem cstr_of_owns {str : Bytes} {path : CString} (h : Owns str (path.val ++ [0])) : cstr str = path := by
  rw [cstr_begins h.begins path.nonul]
  exact CString.ext_val (cstr_of_nonul path.nonul)

theorem tryAddPath_spec (a : Answers) {str : Bytes} {path : CString} (h : Owns str path.val)
    (hfits : path.length ≤ MAX_PATH) (m : Session) :
    ∃ str', tryAddPath a str path.length m = some (str', tried a path m) := by
  have hroom : path.val.length + [(0 : UInt8)].length ≤ MAX_PATH + 1 := Nat.succ_le_succ hfits
  obtain ⟨str₁, hstr₁, howns₁⟩ := h.store [0] hroom
  obtain ⟨str₂, hstr₂, howns₂⟩ := howns₁.shorten.store [0] hroom
  unfold tryAddPath tried CString.length
  rw [hstr₁, Option.bind_eq_bind, Option.bind_some]
  cases a.getActiveDatabase
  · exact ⟨_, rfl⟩
  · cases a.openView
    · exact ⟨_, rfl⟩
    · cases a.viewFetch with
      | success => exact ⟨_, rfl⟩
      | failed => exact ⟨_, rfl⟩
      | noMoreItems =>
        cases hrec : a.row.createRecord with
        | false => exact ⟨str₁, by simp [addRow, hrec]⟩
        | true => exact ⟨str₂, by simp [hstr₂, cstr_of_owns howns₂]⟩

/-! ## The whole function -/

theorem sizeofChkfile_eq : sizeofChkfile = 14 := rfl

theorem chkfile_length : chkfile.val.length = 13 := rfl

theorem installPath_of_closed {value : CString} (h : value.val.getLast? = some 92) : installPath value = value :=
  CString.ext_val (if_pos h)

theorem installPath_of_open {value : CString} (h : value.val.getLast? ≠ some 92) :
    (installPath value).val = value.val ++ [92] := if_neg h

theorem installPath_length_le (value : CString) : (installPath value).length ≤ value.length + 1 := by
  unfold CString.length installPath
  dsimp only
  split
  · exact Nat.le_succ _
  · rw [List.length_append, List.length_singleton]

/-- The last character of a value that is not empty. -/
theorem load_last {str : Bytes} {value : CString} (h : Owns str value.val) (hne : value.val ≠ [])
    (hfits : value.length ≤ MAX_PATH) : load str (dwordPred value.length) = value.val.getLast? := by
  obtain ⟨rest, rfl⟩ := h.begins
  have hpos := List.length_pos_iff.mpr hne
  have hpred : dwordPred value.length = value.val.length - 1 := by
    unfold dwordPred CString.length at *
    unfold MAX_PATH at hfits
    omega
  rw [hpred, load, List.getElem?_append_left (by omega), List.getLast?_eq_getElem?]

theorem closeDir_spec {str : Bytes} {value : CString} (h : Owns str (value.val ++ [0])) (hne : value.val ≠ [])
    (hfits : value.length + sizeofChkfile ≤ MAX_PATH) {m : Session} (hm : m.INSTALLDIR = value) :
    ∃ str', closeDir str value.length m =
        some (str', (installPath value).length, { m with INSTALLDIR := installPath value }) ∧
      Owns str' (installPath value).val := by
  rw [sizeofChkfile_eq] at hfits
  have hlast := load_last h.shorten hne (by omega)
  unfold closeDir
  rw [hlast, List.getLast?_eq_some_getLast hne, Option.bind_eq_bind, Option.bind_some]
  by_cases hclosed : value.val.getLast hne = 92
  · have hsame : installPath value = value :=
      installPath_of_closed ((List.getLast?_eq_some_getLast hne).trans (congrArg some hclosed))
    rw [if_neg (not_not.mpr hclosed), hsame, ← hm]
    exact ⟨str, rfl, hm ▸ h.shorten⟩
  · have hopen : (installPath value).val = value.val ++ [92] := installPath_of_open fun he =>
      hclosed (Option.some.inj ((List.getLast?_eq_some_getLast hne).symm.trans he))
    unfold CString.length at hfits
    obtain ⟨str₁, hstr₁, howns₁⟩ := h.shorten.store [92] (by rw [List.length_singleton]; omega)
    obtain ⟨str₂, hstr₂, howns₂⟩ := howns₁.store [0] (by rw [List.length_append, List.length_singleton]; simp; omega)
    have hlen : (installPath value).length = value.length + 1 := by
      rw [CString.length, hopen, List.length_append, List.length_singleton, CString.length]
    have hfirst : store str value.length [92] = some str₁ := hstr₁
    have hsecond : store str₁ (value.length + 1) [0] = some str₂ := by
      rwa [List.length_append, List.length_singleton] at hstr₂
    rw [← hopen] at howns₂
    refine ⟨str₂, ?_, howns₂.shorten⟩
    rw [if_pos hclosed]
    simp only [hfirst, hsecond, hlen, Option.bind_eq_bind, Option.bind_some, cstr_of_owns howns₂]

/-- `MsiGetProperty` writes the value and a NUL. -/
theorem store_value (stack : Stack) (value : CString) (h : value.length ≤ MAX_PATH) :
    ∃ str, store stack.val 0 (value.val ++ [0]) = some str ∧ Owns str (value.val ++ [0]) := by
  obtain ⟨str, hstr, howns⟩ := (owns_stack stack).store (value.val ++ [0]) (by
    rw [List.length_append, List.length_nil, Nat.zero_add]
    exact Nat.succ_le_succ h)
  exact ⟨str, hstr, howns⟩

/-- A value that can be read and fits: the directory is tried if the file is
there. -/
theorem verify_fitting (a : Answers) (getFileAttributesEx : CString → Bool) (stack : Stack) {m : Session}
    (hread : a.getProperty = true) (hne : m.INSTALLDIR.val ≠ [])
    (hfits : m.INSTALLDIR.length + sizeofChkfile ≤ MAX_PATH) :
    verifyApachePath a getFileAttributesEx stack.val m =
      if getFileAttributesEx (cstr ((installPath m.INSTALLDIR).val ++ chkfile.val)) then
        some { tried a (installPath m.INSTALLDIR)
          (msiSetTargetPath a.setTargetPath (installPath m.INSTALLDIR)
            { m with INSTALLDIR := installPath m.INSTALLDIR }) with badPath := zero }
      else some { m with INSTALLDIR := installPath m.INSTALLDIR, badPath := one } := by
  have hlen := installPath_length_le m.INSTALLDIR
  rw [sizeofChkfile_eq] at hfits
  obtain ⟨str₁, hstr₁, howns₁⟩ := store_value stack m.INSTALLDIR (by omega)
  obtain ⟨str₂, hstr₂, howns₂⟩ := closeDir_spec (m := m) howns₁ hne hfits rfl
  obtain ⟨str₃, hstr₃, howns₃⟩ := howns₂.store (chkfile.val ++ [0])
    (by rw [List.length_append, List.length_singleton, chkfile_length]; unfold CString.length at hfits hlen; omega)
  have hfile : cstr str₃ = cstr ((installPath m.INSTALLDIR).val ++ chkfile.val) := by
    refine cstr_begins ?_ (by simp [(installPath m.INSTALLDIR).nonul, chkfile.nonul])
    rw [List.append_assoc]
    exact howns₃.begins
  obtain ⟨str₄, hstr₄, howns₄⟩ := howns₃.shorten.store [0] (by rw [List.length_singleton]; unfold CString.length at hfits hlen; omega)
  obtain ⟨str₅, hstr₅⟩ := tryAddPath_spec a howns₄.shorten (by omega)
    (msiSetTargetPath a.setTargetPath (installPath m.INSTALLDIR) { m with INSTALLDIR := installPath m.INSTALLDIR })
  have hthere : (a.getProperty && decide (m.INSTALLDIR.length < MAX_PATH)) = true := by
    rw [hread, Bool.true_and, decide_eq_true_eq]; omega
  have hthird : strcpyS str₂ (installPath m.INSTALLDIR).length MAX_PATH chkfile = some str₃ :=
    (if_pos (by decide)).trans hstr₃
  have hfourth : store str₃ (installPath m.INSTALLDIR).length [0] = some str₄ := hstr₄
  unfold verifyApachePath
  rw [hthere, hstr₁, if_neg (by simp)]
  simp only [cstr_of_owns howns₁, hstr₂, hthird, hfourth, hfile, cstr_of_owns howns₄, hstr₅, Option.bind_eq_bind,
    Option.bind_some, sizeofChkfile_eq]
  rw [if_neg (by omega)]
  cases getFileAttributesEx (cstr ((installPath m.INSTALLDIR).val ++ chkfile.val)) <;> rfl

/-- A value that cannot be read or does not fit. -/
theorem verify_unfit (a : Answers) (getFileAttributesEx : CString → Bool) (stack : Stack) {m : Session}
    (h : ¬ (a.getProperty = true ∧ m.INSTALLDIR.length + sizeofChkfile ≤ MAX_PATH)) :
    verifyApachePath a getFileAttributesEx stack.val m = some { m with badPath := one } := by
  unfold verifyApachePath
  by_cases hread : (a.getProperty && decide (m.INSTALLDIR.length < MAX_PATH)) = true
  · rw [Bool.and_eq_true, decide_eq_true_eq] at hread
    obtain ⟨str, hstr, -⟩ := store_value stack m.INSTALLDIR (Nat.le_of_lt hread.2)
    have hlong : m.INSTALLDIR.length + sizeofChkfile > MAX_PATH := Nat.lt_of_not_le fun hle => h ⟨hread.1, hle⟩
    rw [if_neg (by simp [hread.1, hread.2]), hstr, Option.bind_eq_bind, Option.bind_some, if_pos hlong]
  · rw [Bool.eq_false_iff.mpr hread]
    rfl

/-- The empty value: `str[len - 1]` is far outside of the array. -/
theorem verify_empty (a : Answers) (getFileAttributesEx : CString → Bool) (stack : Stack) {m : Session}
    (hread : a.getProperty = true) (h : m.INSTALLDIR.val = []) :
    verifyApachePath a getFileAttributesEx stack.val m = none := by
  have hlen : m.INSTALLDIR.length = 0 := congrArg List.length h
  obtain ⟨str, hstr, howns⟩ := store_value stack m.INSTALLDIR (by omega)
  have hclose : closeDir str 0 m = none := by
    have hload : load str (dwordPred 0) = none := by
      unfold load
      rw [List.getElem?_eq_none_iff, howns.length]
      decide
    unfold closeDir
    rw [hload, Option.bind_eq_bind, Option.bind_none]
  unfold verifyApachePath
  rw [hread, hlen, hstr, if_neg (by decide)]
  simp only [cstr_of_owns howns, hlen, Option.bind_eq_bind, Option.bind_some, sizeofChkfile_eq]
  rw [if_neg (by decide)]
  show (closeDir str 0 m).bind _ = none
  rw [hclose, Option.bind_none]

/-- Trying the directory leaves it in the property. -/
theorem tried_INSTALLDIR (a : Answers) {path : CString} {m : Session} (h : m.INSTALLDIR = path) :
    (tried a path m).INSTALLDIR = path := by
  unfold tried addRow msiViewModify msiSetTargetPath
  dsimp only
  repeat' split
  all_goals first | exact h | rfl

theorem msiSetTargetPath_INSTALLDIR (success : Bool) {path : CString} {m : Session} (h : m.INSTALLDIR = path) :
    (msiSetTargetPath success path m).INSTALLDIR = path := by
  unfold msiSetTargetPath
  split
  · rfl
  · exact h

theorem one_ne_zero : one ≠ zero := by decide

/-- For every value of `INSTALLDIR`, every file system and every answer of MSI:
the function stays inside the array and is right exactly when the value is not
the empty string, or cannot be read. -/
theorem verify_right_iff (a : Answers) (getFileAttributesEx : CString → Bool) (stack : Stack) (m : Session) :
    Right a getFileAttributesEx stack m ↔ ¬ (a.getProperty = true ∧ m.INSTALLDIR.val = []) := by
  constructor
  · rintro ⟨m', hm', -⟩ ⟨hread, hempty⟩
    rw [verify_empty a getFileAttributesEx stack hread hempty] at hm'
    cases hm'
  · intro h
    by_cases hfits : a.getProperty = true ∧ m.INSTALLDIR.length + sizeofChkfile ≤ MAX_PATH
    · have hne : m.INSTALLDIR.val ≠ [] := fun he => h ⟨hfits.1, he⟩
      have hread : m.INSTALLDIR.length < MAX_PATH := by
        have := hfits.2
        rw [sizeofChkfile_eq] at this
        omega
      have hfile : Present a getFileAttributesEx m.INSTALLDIR ↔
          getFileAttributesEx (cstr ((installPath m.INSTALLDIR).val ++ chkfile.val)) = true :=
        ⟨Present.file, fun hf => ⟨⟨hfits.1, hread⟩, hfits.2, hf⟩⟩
      unfold Right
      rw [verify_fitting a getFileAttributesEx stack hfits.1 hne hfits.2]
      by_cases hf : getFileAttributesEx (cstr ((installPath m.INSTALLDIR).val ++ chkfile.val)) = true
      · rw [if_pos hf]
        refine ⟨_, rfl, iff_of_true rfl (hfile.mpr hf), fun _ => ?_, fun hno => absurd (hfile.mpr hf) hno⟩
        exact tried_INSTALLDIR a (msiSetTargetPath_INSTALLDIR a.setTargetPath rfl)
      · rw [if_neg hf]
        exact ⟨_, rfl, iff_of_false one_ne_zero (mt hfile.mp hf), fun hp => absurd (hfile.mp hp) hf, fun _ => rfl⟩
    · have hno : ¬ Present a getFileAttributesEx m.INSTALLDIR := fun hp => hfits ⟨hp.readable.1, hp.fits⟩
      exact ⟨_, verify_unfit a getFileAttributesEx stack hfits, iff_of_false one_ne_zero hno, fun hp => absurd hp hno,
        fun _ => rfl⟩

/-- MSI does what it is asked, and has no such row. -/
def willing : Answers := ⟨true, true, true, true, .noMoreItems, ⟨true, true, true⟩⟩

/-- A session with nothing in it. -/
def emptySession : Session := ⟨⟨[], by simp⟩, one, none, [], []⟩

/-- The user leaves the path empty. -/
theorem empty_path_outside : ¬ ∀ (a : Answers) (getFileAttributesEx : CString → Bool) (stack : Stack) (m : Session),
    Right a getFileAttributesEx stack m := by
  intro h
  obtain ⟨m', hm', -⟩ := h willing (fun _ => false) clearedStack emptySession
  rw [verify_empty willing (fun _ => false) clearedStack rfl rfl] at hm'
  cases hm'

end ModAspNet.L7.VerifyPath
