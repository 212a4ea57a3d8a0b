import Mathlib.Data.Nat.Bitwise
import ModAspNet.L1Text.CStr

/-!
# The installer's drive search

`drsearch` (`msi_dll/quicksearch.c`) looks for a file on all fixed drives, down
to a depth. One array, `search[MAX_PATH + 1]`, has the path of the directory
being searched; each level of the recursion appends to it the search name, the
wildcard and the names of its subdirectories, and the callback may write behind
the directory's part.

A write past the end of the array is `none`. The drives do not change during
the search; what the Windows calls answer is a function of the path (`Disk`).

* `store_at`: what a write behind a prefix leaves of the array.
* `Finds.foldlM`: what is found one after the other.
* `volsearch_spec`: each level owns the array from its path on: it calls back for
  what `searched` lists, and leaves what is before.
-/
namespace ModAspNet.L7.QuickSearch

open ModAspNet.L1.CStr

def MAX_PATH : Nat := 260

def DRIVE_FIXED : Nat := 3

def FILE_ATTRIBUTE_DIRECTORY : UInt32 := 16

/-! ## Windows -/

/-- `WIN32_FIND_DATA`: a name of a directory's listing. -/
structure FindData where
  cFileName : CString
  dwFileAttributes : UInt32
  nonempty : cFileName.val ≠ []
  segment : 92 ∉ cFileName.val

/-- What the Windows calls answer: `findFirstFileEx` has the whole listing,
`FindNextFile` included, and is empty for `INVALID_HANDLE_VALUE`. -/
structure Disk (Attr : Type) where
  getDriveType : CString → Nat
  getFileAttributesEx : CString → Option Attr
  findFirstFileEx : CString → List FindData
  distinct : ∀ p, ((findFirstFileEx p).map fun e => e.cFileName.val).Nodup

/-- A call of the callback. -/
structure Hit (Attr : Type) where
  path : CString
  len : Nat
  fi : Attr

/-- A `filesearch` callback that writes at and after position `len` only; what
it writes may depend on all calls so far. -/
structure FileSearch (Attr : Type) where
  write : List (Hit Attr) → Bytes → Nat → Bytes
  keeps : ∀ hits path len, (write hits path len).take len = path.take len
  inside : ∀ hits path len, (write hits path len).length = path.length

/-- `path[len] = '\0'`, unless there is no record.
mirrors msi_dll/resolve_apache.c:41-71 -/
def cbResolver {Attr : Type} (msiCreateRecord : List (Hit Attr) → Bool) : FileSearch Attr where
  write hits path len := if msiCreateRecord hits then path.set len 0 else path
  keeps hits path len := by
    split
    · exact List.take_set_of_le (Nat.le_refl len)
    · rfl
  inside hits path len := by split <;> simp

/-! ## The functions -/

/-- Writes `data` at `off`; `none` past the end of the array. -/
def store (buf : Bytes) (off : Nat) (data : Bytes) : Option Bytes :=
  if off + data.length ≤ buf.length then some (buf.take off ++ data ++ buf.drop (off + data.length)) else none

/-- The array, and the calls of the callback so far. -/
structure Search (Attr : Type) where
  curpath : Bytes
  hits : List (Hit Attr)

/-- A character of a C string, NUL at its end. -/
def charAt (s : CString) (i : Nat) : UInt8 := s.val.getD i 0

/-- A directory other than `.` and `..`; mirrors msi_dll/quicksearch.c:58-61 -/
def enters (found : FindData) : Bool :=
  found.dwFileAttributes &&& FILE_ATTRIBUTE_DIRECTORY ≠ 0 &&
    (charAt found.cFileName 0 ≠ 46 ||
      (charAt found.cFileName 1 ≠ 0 && (charAt found.cFileName 1 ≠ 46 || charAt found.cFileName 2 ≠ 0)))

section
variable {Attr : Type} (d : Disk Attr) (cb : FileSearch Attr) (findfile : CString)

/-- `if (pathlen > 3) curpath[pathlen++] = '\\';` -/
def closePath (curpath : Bytes) (pathlen : Nat) : Option (Bytes × Nat) :=
  if pathlen > 3 then (store curpath pathlen [92]).map (·, pathlen + 1) else some (curpath, pathlen)

/-- Up to the callback, with the new `pathlen`.
mirrors msi_dll/quicksearch.c:28-36 -/
def lookHere (pathlen : Nat) (s : Search Attr) : Option (Nat × Search Attr) := do
  let (curpath, pathlen) ← closePath s.curpath pathlen
  let curpath ← store curpath pathlen (findfile.val ++ [0])
  match d.getFileAttributesEx (cstr curpath) with
  | none => some (pathlen, { s with curpath })
  | some fi =>
    let hits := s.hits ++ [⟨cstr curpath, pathlen, fi⟩]
    some (pathlen, ⟨cb.write hits curpath pathlen, hits⟩)

/-- One turn of the listing loop; mirrors msi_dll/quicksearch.c:55-66 -/
def listed (descend : Nat → Search Attr → Option (Search Attr)) (pathlen : Nat) (s : Search Attr)
    (found : FindData) : Option (Search Attr) :=
  let namelen := found.cFileName.length
  if enters found && decide (pathlen + namelen + findfile.length + 1 ≤ MAX_PATH) then do
    let curpath ← store s.curpath pathlen (found.cFileName.val ++ [0])
    descend (pathlen + namelen) { s with curpath }
  else some s

/-- Both branches on `pathlen == 3` write the same wildcard.
mirrors msi_dll/quicksearch.c:21-75 -/
def volsearch : Nat → Nat → Search Attr → Option (Search Attr)
  | 0, pathlen, s => do
    let (pathlen, s) ← lookHere d cb findfile pathlen s
    let curpath ← store s.curpath pathlen [0]
    some { s with curpath }
  | depth + 1, pathlen, s => do
    let (pathlen, s) ← lookHere d cb findfile pathlen s
    let curpath ← store s.curpath pathlen [42, 0]
    let s ← (d.findFirstFileEx (cstr curpath)).foldlM (listed findfile (volsearch depth) pathlen) { s with curpath }
    let curpath ← store s.curpath pathlen [0]
    some { s with curpath }

/-- A drive that there is; mirrors msi_dll/quicksearch.c:90-93 -/
def searchDrive (depth : Nat) (s : Search Attr) : Option (Search Attr) := do
  let curpath ← store s.curpath 3 [0]
  if d.getDriveType (cstr curpath) = DRIVE_FIXED then volsearch d cb findfile depth 3 { s with curpath }
  else some { s with curpath }

/-- The loop over the drives; mirrors msi_dll/quicksearch.c:88-97 -/
def driveLoop (depth : Nat) (drives : Nat) (s : Search Attr) : Option (Search Attr) :=
  if drives = 0 then some s
  else do
    let s ← (if drives % 2 = 1 then searchDrive d cb findfile depth s else some s)
    let curpath ← store s.curpath 0 [s.curpath.getD 0 0 + 1]
    driveLoop depth (drives / 2) { s with curpath }
termination_by drives
decreasing_by omega

/-- `search` has `stack` in it when the function begins.
mirrors msi_dll/quicksearch.c:78-98 -/
def drsearch (depth : Nat) (getLogicalDrives : UInt32) (stack : Bytes) : Option (Search Attr) := do
  let search ← store stack 0 [65, 58, 92]
  driveLoop d cb findfile depth getLogicalDrives.toNat ⟨search, []⟩

end

/-! ## The array -/

/-- A write behind a prefix of the array leaves the prefix, and stands after it. -/
theorem store_at {buf p : Bytes} (hp : p <+: buf) {data : Bytes} (hfits : p.length + data.length ≤ buf.length) :
    ∃ buf', store buf p.length data = some buf' ∧ p ++ data <+: buf' ∧ buf'.length = buf.length := by
  have htake : buf.take p.length = p := (List.prefix_iff_eq_take.mp hp).symm
  refine ⟨_, if_pos hfits, ?_, ?_⟩
  · rw [htake]
    exact List.prefix_append _ _
  · rw [htake, List.length_append, List.length_append, List.length_drop]
    omega

theorem store_outside {buf : Bytes} {off : Nat} {data : Bytes} (h : buf.length < off + data.length) :
    store buf off data = none := if_neg (by omega)

/-- The C string in an array that begins with `t` and a NUL. -/
theorem cstr_begins {buf t : Bytes} (h : t ++ [0] <+: buf) (ht : 0 ∉ t) : cstr buf = cstr t := by
  obtain ⟨rest, rfl⟩ := h
  refine CString.ext_val ?_
  rw [List.append_assoc, List.singleton_append, cstr_val_of_nonul ht, cstr_of_nonul ht]

/-- The array is whole, and begins with `p`. -/
structure Owns (curpath p : Bytes) : Prop where
  begins : p <+: curpath
  length : curpath.length = MAX_PATH + 1

theorem Owns.shorten {curpath p q : Bytes} (h : Owns curpath (p ++ q)) : Owns curpath p :=
  ⟨(List.prefix_append p q).trans h.begins, h.length⟩

theorem Owns.store {curpath p : Bytes} (h : Owns curpath p) (data : Bytes)
    (hfits : p.length + data.length ≤ MAX_PATH + 1) :
    ∃ buf, store curpath p.length data = some buf ∧ Owns buf (p ++ data) := by
  obtain ⟨buf, hbuf, hbegins, hlen⟩ := store_at h.begins (hfits.trans_eq h.length.symm)
  exact ⟨buf, hbuf, hbegins, hlen.trans h.length⟩

/-- Run while `path` stands in the array, `f` finds `hits`, and `path` stands
there afterwards. -/
def Finds {Attr : Type} (path : Bytes) (hits : List (Hit Attr)) (f : Search Attr → Option (Search Attr)) : Prop :=
  ∀ s, Owns s.curpath path → ∃ s', f s = some s' ∧ Owns s'.curpath path ∧ s'.hits = s.hits ++ hits

theorem finds_nothing {Attr : Type} (path : Bytes) : Finds path ([] : List (Hit Attr)) some := by
  intro s hs
  exact ⟨s, rfl, hs, (List.append_nil _).symm⟩

/-- One after the other. -/
theorem Finds.foldlM {Attr α : Type} {path : Bytes} {hits : α → List (Hit Attr)}
    {f : Search Attr → α → Option (Search Attr)} (h : ∀ x, Finds path (hits x) fun s => f s x) :
    ∀ xs : List α, Finds path (xs.flatMap hits) fun s => xs.foldlM f s
  | [] => finds_nothing path
  | x :: xs => by
    intro s hs
    obtain ⟨s₁, hs₁, howns₁, hhits₁⟩ := h x s hs
    obtain ⟨s₂, hs₂, howns₂, hhits₂⟩ := Finds.foldlM h xs s₁ howns₁
    refine ⟨s₂, ?_, howns₂, ?_⟩
    · have hx : f s x = some s₁ := hs₁
      show (x :: xs).foldlM f s = some s₂
      rw [List.foldlM_cons, hx]
      exact hs₂
    · rw [hhits₂, hhits₁, List.append_assoc, List.flatMap_cons]

/-! ## What is to be found -/

/-- A directory, but neither the directory listed nor the one above. -/
def IsSubdirectory (e : FindData) : Prop :=
  e.dwFileAttributes &&& FILE_ATTRIBUTE_DIRECTORY ≠ 0 ∧ e.cFileName.val ≠ [46] ∧ e.cFileName.val ≠ [46, 46]

instance (e : FindData) : Decidable (IsSubdirectory e) := inferInstanceAs (Decidable (_ ∧ _))

/-- The filter skips nothing else, names that begin with a dot included. -/
theorem enters_iff (e : FindData) : enters e = true ↔ IsSubdirectory e := by
  obtain ⟨⟨name, hnul⟩, attributes, hne, hseg⟩ := e
  have hzero : ∀ c ∈ name, c ≠ 0 := fun c hc h0 => hnul (h0 ▸ hc)
  unfold enters IsSubdirectory charAt
  rcases name with _ | ⟨a, _ | ⟨b, _ | ⟨c, rest⟩⟩⟩
  · exact absurd rfl hne
  · simp
  · have hb : b ≠ 0 := hzero b (by simp)
    simp [hb]
    tauto
  · have hb : b ≠ 0 := hzero b (by simp)
    have hc : c ≠ 0 := hzero c (by simp)
    simp [hb, hc]

section
variable {Attr : Type} (d : Disk Attr) (cb : FileSearch Attr) (findfile : CString)

/-- The search file in a directory, which is given with its trailing backslash. -/
def hitsAt (dir : Bytes) : List (Hit Attr) :=
  match d.getFileAttributesEx (cstr (dir ++ findfile.val)) with
  | none => []
  | some fi => [⟨cstr (dir ++ findfile.val), dir.length, fi⟩]

/-- The listing of a directory. -/
def listing (dir : Bytes) : List FindData := d.findFirstFileEx (cstr (dir ++ [42]))

/-- The directories listed in a directory. -/
def subdirs (dir : Bytes) : List Bytes :=
  ((listing d dir).filter fun e => decide (IsSubdirectory e)).map fun e => dir ++ e.cFileName.val ++ [92]

/-- Directory and search name fit into a path. -/
def Fits (dir : Bytes) : Prop := dir.length + findfile.length ≤ MAX_PATH

instance (dir : Bytes) : Decidable (Fits findfile dir) := inferInstanceAs (Decidable (_ ≤ _))

/-- The hits below a directory in pre-order of the listings. -/
def searched : Nat → Bytes → List (Hit Attr)
  | 0, dir => if Fits findfile dir then hitsAt d findfile dir else []
  | depth + 1, dir =>
    if Fits findfile dir then hitsAt d findfile dir ++ (subdirs d dir).flatMap (searched depth) else []

theorem searched_unfit (depth : Nat) {dir : Bytes} (h : ¬ Fits findfile dir) : searched d findfile depth dir = [] := by
  cases depth <;> exact if_neg h

/-- What the subdirectories of a listing give. -/
def below (depth : Nat) (dir : Bytes) (entries : List FindData) : List (Hit Attr) :=
  entries.flatMap fun e => if IsSubdirectory e then searched d findfile depth (dir ++ e.cFileName.val ++ [92]) else []

theorem below_listing (depth : Nat) (dir : Bytes) :
    below d findfile depth dir (listing d dir) =
      (subdirs d dir).flatMap (searched d findfile depth) := by
  unfold below subdirs
  rw [List.flatMap_map]
  induction listing d dir with
  | nil => rfl
  | cons e entries ih =>
    rw [List.flatMap_cons, ih, List.filter_cons]
    by_cases he : IsSubdirectory e
    · rw [if_pos he, if_pos (decide_eq_true he), List.flatMap_cons]
    · rw [if_neg he, if_neg (by simpa using he), List.nil_append]

/-! ## One level -/

/-- The directory of a path: only a drive's root has its backslash. -/
def dirOf (start : Bytes) : Bytes := if start.length > 3 then start ++ [92] else start

variable {d findfile}

theorem start_of_dirOf {curpath start : Bytes} (h : Owns curpath (dirOf start)) : Owns curpath start := by
  unfold dirOf at h
  split at h
  · exact h.shorten
  · exact h

theorem le_dirOf (start : Bytes) : start.length ≤ (dirOf start).length := by
  unfold dirOf
  split
  · rw [List.length_append]; omega
  · exact Nat.le_refl _

theorem nonul_dirOf {start : Bytes} (h : 0 ∉ start) : 0 ∉ dirOf start := by
  unfold dirOf
  split
  · simp [h]
  · exact h

theorem closePath_spec {start curpath : Bytes} (hs : Owns curpath start) (hfits : (dirOf start).length ≤ MAX_PATH) :
    ∃ buf, closePath curpath start.length = some (buf, (dirOf start).length) ∧ Owns buf (dirOf start) := by
  unfold closePath dirOf at *
  split
  · rename_i hlong
    rw [if_pos hlong, List.length_append, List.length_singleton] at hfits
    obtain ⟨buf, hbuf, howns⟩ := hs.store [92] (by rw [List.length_singleton]; omega)
    exact ⟨buf, by rw [hbuf, List.length_append]; rfl, howns⟩
  · exact ⟨curpath, rfl, hs⟩

/-- The directory's own part: the search name behind it, and the callback for it. -/
theorem lookHere_spec {start : Bytes} (hnul : 0 ∉ start) {s : Search Attr} (hs : Owns s.curpath start)
    (hfits : Fits findfile (dirOf start)) :
    ∃ s', lookHere d cb findfile start.length s = some ((dirOf start).length, s') ∧ Owns s'.curpath (dirOf start) ∧
      s'.hits = s.hits ++ hitsAt d findfile (dirOf start) := by
  have hdir := nonul_dirOf hnul
  unfold Fits CString.length at hfits
  obtain ⟨buf₁, hbuf₁, howns₁⟩ := closePath_spec hs (by omega)
  obtain ⟨buf₂, hbuf₂, howns₂⟩ := howns₁.store (findfile.val ++ [0])
    (by rw [List.length_append, List.length_singleton]; omega)
  have hstr : cstr buf₂ = cstr (dirOf start ++ findfile.val) := by
    refine cstr_begins ?_ (by simp [hdir, findfile.nonul])
    rw [List.append_assoc]
    exact howns₂.begins
  unfold lookHere hitsAt
  simp only [hbuf₁, hbuf₂, hstr, Option.bind_eq_bind, Option.bind_some]
  cases d.getFileAttributesEx (cstr (dirOf start ++ findfile.val)) with
  | none => exact ⟨_, rfl, howns₂.shorten, (List.append_nil _).symm⟩
  | some fi =>
    refine ⟨_, rfl, ⟨?_, ?_⟩, rfl⟩
    · -- the callback wrote behind the directory only
      rw [List.prefix_iff_eq_take, cb.keeps]
      exact List.prefix_iff_eq_take.mp howns₂.shorten.begins
    · rw [cb.inside]
      exact howns₂.length

/-- A directory and all below it: the callback is called for what is to be
found, and what stands before in the array is kept. -/
def Searches (d : Disk Attr) (cb : FileSearch Attr) (findfile : CString) (depth : Nat) : Prop :=
  ∀ start : Bytes, 3 ≤ start.length → 0 ∉ start → Fits findfile (dirOf start) →
    Finds start (searched d findfile depth (dirOf start)) (volsearch d cb findfile depth start.length)

/-- What a level does for a subdirectory, it does in the array behind its own
path. -/
theorem listed_spec {depth : Nat} {dir : Bytes} (hdir : 3 ≤ dir.length) (hnul : 0 ∉ dir)
    (ih : Searches d cb findfile depth) (found : FindData) :
    Finds dir (if IsSubdirectory found then searched d findfile depth (dir ++ found.cFileName.val ++ [92]) else [])
      fun s => listed findfile (volsearch d cb findfile depth) dir.length s found := by
  intro s hs
  have hname := List.length_pos_iff.mpr found.nonempty
  have hchild : dirOf (dir ++ found.cFileName.val) = dir ++ found.cFileName.val ++ [92] := by
    unfold dirOf
    rw [if_pos (by rw [List.length_append]; omega)]
  have htest : (dir.length + found.cFileName.length + findfile.length + 1 ≤ MAX_PATH) ↔
      Fits findfile (dir ++ found.cFileName.val ++ [92]) := by
    unfold Fits
    rw [List.length_append, List.length_append, List.length_singleton, CString.length]
    omega
  unfold listed
  dsimp only
  by_cases henters : enters found = true
  · by_cases hchildfits : Fits findfile (dir ++ found.cFileName.val ++ [92])
    · have hroom : dir.length + (found.cFileName.val ++ [0]).length ≤ MAX_PATH + 1 := by
        unfold Fits at hchildfits
        simp only [List.length_append, List.length_singleton] at hchildfits ⊢
        omega
      obtain ⟨buf, hbuf, howns⟩ := hs.store (found.cFileName.val ++ [0]) hroom
      rw [← List.append_assoc] at howns
      obtain ⟨s', hs', howns', hhits⟩ := ih (dir ++ found.cFileName.val) (by rw [List.length_append]; omega)
        (by simp [hnul, found.cFileName.nonul]) (by rw [hchild]; exact hchildfits) { s with curpath := buf } howns.shorten
      refine ⟨s', ?_, howns'.shorten, ?_⟩
      · rw [henters, Bool.true_and, if_pos (decide_eq_true (htest.mpr hchildfits)), hbuf]
        rw [List.length_append] at hs'
        exact hs'
      · rw [hhits, hchild, if_pos ((enters_iff found).mp henters)]
    · refine ⟨s, ?_, hs, ?_⟩
      · rw [henters, Bool.true_and, if_neg (by simpa using mt htest.mp hchildfits)]
      · rw [if_pos ((enters_iff found).mp henters), searched_unfit d findfile depth hchildfits, List.append_nil]
  · refine ⟨s, ?_, hs, ?_⟩
    · rw [Bool.not_eq_true] at henters
      rw [henters, Bool.false_and, if_neg (by simp)]
    · rw [if_neg (mt (enters_iff found).mpr henters), List.append_nil]

theorem volsearch_spec (hfile : findfile.val ≠ []) (depth : Nat) : Searches d cb findfile depth := by
  have hfilelen := List.length_pos_iff.mpr hfile
  induction depth with
  | zero =>
    intro start _ hnul hfits s hs
    obtain ⟨s₁, hs₁, howns₁, hhits₁⟩ := lookHere_spec (d := d) cb hnul hs hfits
    have hroom := hfits
    unfold Fits CString.length at hroom
    obtain ⟨buf, hbuf, howns⟩ := howns₁.store [0] (by rw [List.length_singleton]; omega)
    refine ⟨{ s₁ with curpath := buf }, ?_, (start_of_dirOf howns.shorten), ?_⟩
    · simp only [volsearch, hs₁, hbuf, Option.bind_eq_bind, Option.bind_some]
    · rw [hhits₁, searched, if_pos hfits]
  | succ depth ih =>
    intro start hlen hnul hfits s hs
    obtain ⟨s₁, hs₁, howns₁, hhits₁⟩ := lookHere_spec (d := d) cb hnul hs hfits
    have hroom := hfits
    unfold Fits CString.length at hroom
    -- the wildcard
    obtain ⟨buf₂, hbuf₂, howns₂⟩ := howns₁.store [42, 0] (by simp only [List.length_cons, List.length_nil]; omega)
    have hpattern : cstr buf₂ = cstr (dirOf start ++ [42]) := by
      refine cstr_begins ?_ (by simp [nonul_dirOf hnul])
      rw [List.append_assoc]
      exact howns₂.begins
    have hlisted := listed_spec cb (hlen.trans (le_dirOf start)) (nonul_dirOf hnul) ih
    obtain ⟨s₃, hs₃, howns₃, hhits₃⟩ :=
      Finds.foldlM hlisted (listing d (dirOf start)) { s₁ with curpath := buf₂ } howns₂.shorten
    obtain ⟨buf₄, hbuf₄, howns₄⟩ := howns₃.store [0] (by rw [List.length_singleton]; omega)
    refine ⟨{ s₃ with curpath := buf₄ }, ?_, start_of_dirOf howns₄.shorten, ?_⟩
    · unfold listing at hs₃
      simp only [volsearch, hs₁, hbuf₂, hpattern, hs₃, hbuf₄, Option.bind_eq_bind, Option.bind_some]
    · rw [hhits₃, hhits₁, List.append_assoc, searched, if_pos hfits, ← below_listing]
      rfl

end

end ModAspNet.L7.QuickSearch
