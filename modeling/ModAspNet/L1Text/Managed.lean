import ModAspNet.L1Text.CStr

/-!
# Managed strings

The managed half of the module (`Apache.Web`) works on `String ^`, sequences
of UTF-16 code units, and turns them into bytes with
`UTF8Encoding(false)->GetBytes`: no byte order mark, and a surrogate without
its partner becomes U+FFFD.

Upper and lower case come from a culture, whose tables are part of the run-time
system (`Culture`); on ASCII they are the familiar ones.

* `utf8_eq_nil`: only the empty string has no bytes.
* `replaceSlashes_replaceBackslashes` and its mirror image: each replacement
  undoes the other where the character it brings back was not there before.
* `compareIgnoreCase_eq_zero`: strings compare equal when they are equal in
  lower case.
-/
namespace ModAspNet.L1.Managed

open ModAspNet.L1.CStr

/-- `String ^`, never null here. -/
abbrev WString := List UInt16

/-- A literal `L"…"` of the source, ASCII. -/
def wlit (s : String) : WString := s.toList.map fun c => c.val.toUInt16

def isHigh (u : UInt16) : Bool := 0xD800 ≤ u.toNat ∧ u.toNat < 0xDC00

def isLow (u : UInt16) : Bool := 0xDC00 ≤ u.toNat ∧ u.toNat < 0xE000

/-- One byte of an encoded scalar: a marker and six (or fewer) bits. -/
def octet (marker bits : Nat) : UInt8 := UInt8.ofNat (marker + bits)

/-- A code unit that is not part of a pair. -/
def utf8Unit (u : UInt16) : Bytes :=
  let n := u.toNat
  if isHigh u || isLow u then [0xEF, 0xBF, 0xBD]
  else if n < 0x80 then [octet 0 n]
  else if n < 0x800 then [octet 0xC0 (n / 64), octet 0x80 (n % 64)]
  else [octet 0xE0 (n / 4096), octet 0x80 (n / 64 % 64), octet 0x80 (n % 64)]

/-- A surrogate pair. -/
def utf8Pair (hi lo : UInt16) : Bytes :=
  let n := 0x10000 + (hi.toNat - 0xD800) * 1024 + (lo.toNat - 0xDC00)
  [octet 0xF0 (n / 262144), octet 0x80 (n / 4096 % 64), octet 0x80 (n / 64 % 64), octet 0x80 (n % 64)]

/-- `utf8_encoding->GetBytes` -/
def utf8 : WString → Bytes
  | [] => []
  | [u] => utf8Unit u
  | u :: v :: rest =>
    if isHigh u && isLow v then utf8Pair u v ++ utf8 rest else utf8Unit u ++ utf8 (v :: rest)

theorem utf8Unit_ne_nil (u : UInt16) : utf8Unit u ≠ [] := by
  unfold utf8Unit
  dsimp only
  repeat' split
  all_goals simp

theorem utf8_eq_nil {s : WString} : utf8 s = [] ↔ s = [] := by
  constructor
  · intro h
    unfold utf8 at h
    split at h
    · rfl
    · exact absurd h (utf8Unit_ne_nil _)
    · split at h
      · simp [utf8Pair] at h
      · exact absurd (List.append_eq_nil_iff.mp h).1 (utf8Unit_ne_nil _)
  · rintro rfl; rfl

/-! ## Separators -/

/-- `Replace(L'/', L'\\')` -/
def replaceSlashes (s : WString) : WString := s.map fun u => if u = 47 then 92 else u

/-- `Replace(L'\\', L'/')` -/
def replaceBackslashes (s : WString) : WString := s.map fun u => if u = 92 then 47 else u

@[simp] theorem replaceSlashes_append (s t : WString) :
    replaceSlashes (s ++ t) = replaceSlashes s ++ replaceSlashes t := List.map_append

@[simp] theorem replaceBackslashes_append (s t : WString) :
    replaceBackslashes (s ++ t) = replaceBackslashes s ++ replaceBackslashes t := List.map_append

@[simp] theorem replaceSlashes_length (s : WString) : (replaceSlashes s).length = s.length := List.length_map _

@[simp] theorem replaceBackslashes_length (s : WString) : (replaceBackslashes s).length = s.length :=
  List.length_map _

theorem slash_notMem (s : WString) : 47 ∉ replaceSlashes s := by
  unfold replaceSlashes
  rw [List.mem_map]
  rintro ⟨u, -, hu⟩
  split at hu
  · exact absurd hu (by decide)
  · rename_i h; exact h hu

theorem backslash_notMem (s : WString) : 92 ∉ replaceBackslashes s := by
  unfold replaceBackslashes
  rw [List.mem_map]
  rintro ⟨u, -, hu⟩
  split at hu
  · exact absurd hu (by decide)
  · rename_i h; exact h hu

theorem replaceSlashes_of_notMem {s : WString} (h : 47 ∉ s) : replaceSlashes s = s := by
  unfold replaceSlashes
  refine (List.map_congr_left fun u hu => ?_).trans (List.map_id s)
  have hne : u ≠ 47 := fun e => h (e ▸ hu)
  exact if_neg hne

theorem replaceBackslashes_of_notMem {s : WString} (h : 92 ∉ s) : replaceBackslashes s = s := by
  unfold replaceBackslashes
  refine (List.map_congr_left fun u hu => ?_).trans (List.map_id s)
  have hne : u ≠ 92 := fun e => h (e ▸ hu)
  exact if_neg hne

/-- Without slashes, backslashes come back. -/
theorem replaceSlashes_replaceBackslashes {s : WString} (h : 47 ∉ s) : replaceSlashes (replaceBackslashes s) = s := by
  unfold replaceSlashes replaceBackslashes
  rw [List.map_map]
  refine (List.map_congr_left fun u hu => ?_).trans (List.map_id s)
  have hne : u ≠ 47 := fun e => h (e ▸ hu)
  by_cases hb : u = 92
  · simp [hb]
  · simp [hb, hne]

/-- Without backslashes, slashes come back. -/
theorem replaceBackslashes_replaceSlashes {s : WString} (h : 92 ∉ s) : replaceBackslashes (replaceSlashes s) = s := by
  unfold replaceSlashes replaceBackslashes
  rw [List.map_map]
  refine (List.map_congr_left fun u hu => ?_).trans (List.map_id s)
  have hne : u ≠ 92 := fun e => h (e ▸ hu)
  by_cases hb : u = 47
  · simp [hb]
  · simp [hb, hne]

/-! ## Case -/

/-- Lower case of an ASCII code unit. -/
def asciiLower (u : UInt16) : UInt16 := if 65 ≤ u ∧ u ≤ 90 then u + 32 else u

/-- `CultureInfo::InvariantCulture`: its table of lower case. -/
structure Culture where
  toLower : UInt16 → UInt16
  ascii : ∀ u, u < 128 → toLower u = asciiLower u

/-- A culture that knows ASCII only. -/
def asciiCulture : Culture := ⟨asciiLower, fun _ _ => rfl⟩

/-- `ToLower(nullCulture)` -/
def Culture.lower (c : Culture) (s : WString) : WString := s.map c.toLower

/-- `String::Compare` with `ignoreCase`, ordinal: the difference of the first
code units that differ in lower case; a string comes after what begins it. -/
def Culture.compareIgnoreCase (c : Culture) : WString → WString → Int
  | [], [] => 0
  | [], _ :: _ => -1
  | _ :: _, [] => 1
  | u :: s, v :: t =>
    if c.toLower u ≠ c.toLower v then (c.toLower u).toNat - (c.toLower v).toNat else c.compareIgnoreCase s t

theorem compareIgnoreCase_eq_zero (c : Culture) : ∀ s t : WString,
    c.compareIgnoreCase s t = 0 ↔ c.lower s = c.lower t
  | [], [] => by simp [Culture.compareIgnoreCase]
  | [], _ :: _ => by simp [Culture.compareIgnoreCase, Culture.lower]
  | _ :: _, [] => by simp [Culture.compareIgnoreCase, Culture.lower]
  | u :: s, v :: t => by
    have ih := compareIgnoreCase_eq_zero c s t
    unfold Culture.lower at ih
    unfold Culture.compareIgnoreCase Culture.lower
    rw [List.map_cons, List.map_cons]
    split
    · rename_i h
      have hne : (c.toLower u).toNat ≠ (c.toLower v).toNat := fun e => h (UInt16.toNat_inj.mp e)
      constructor
      · intro h0; omega
      · intro h0; exact absurd (List.cons.inj h0).1 h
    · rename_i h
      rw [ih, not_not.mp h]
      exact ⟨fun e => by rw [e], fun e => (List.cons.inj e).2⟩

/-! ## ASCII -/

abbrev Ascii (b : Bytes) : Prop := ∀ x ∈ b, x < 128

/-- The code units of ASCII bytes. -/
def asciiText (b : Bytes) : WString := b.map UInt8.toUInt16

/-- The system's ANSI code page: how `gcnew String(char *)` decodes. -/
structure CodePage where
  decode : Bytes → WString
  ascii : ∀ b, Ascii b → decode b = asciiText b

theorem asciiLower_toUInt16 (x : UInt8) (h : x < 128) : asciiLower x.toUInt16 = (tolower x).toUInt16 := by
  have hx := UInt8.lt_iff_toNat_lt.mp h
  unfold asciiLower tolower
  by_cases hr : 65 ≤ x ∧ x ≤ 90
  · have h1 := UInt8.le_iff_toNat_le.mp hr.1
    have h2 := UInt8.le_iff_toNat_le.mp hr.2
    simp only [UInt8.reduceToNat] at hx h1 h2
    rw [if_pos hr, if_pos (by simp only [UInt16.le_iff_toNat_le, UInt8.toNat_toUInt16]; simpa using ⟨h1, h2⟩)]
    apply UInt16.toNat_inj.mp
    simp only [UInt16.toNat_add, UInt8.toNat_toUInt16, UInt8.toNat_add]
    simp only [UInt16.reduceToNat, UInt8.reduceToNat, Nat.reducePow]
    omega
  · rw [if_neg hr, if_neg]
    simp only [UInt8.le_iff_toNat_le, UInt16.le_iff_toNat_le, UInt8.toNat_toUInt16] at hr ⊢
    simpa using hr

theorem toLower_toUInt16 (c : Culture) {x : UInt8} (h : x < 128) : c.toLower x.toUInt16 = (tolower x).toUInt16 := by
  rw [c.ascii, asciiLower_toUInt16 x h]
  rw [UInt16.lt_iff_toNat_lt, UInt8.toNat_toUInt16]
  exact UInt8.lt_iff_toNat_lt.mp h

theorem tolower_lt {x : UInt8} : tolower x < 128 ↔ x < 128 := by
  unfold tolower
  split
  · rename_i h
    have h1 := UInt8.le_iff_toNat_le.mp h.1
    have h2 := UInt8.le_iff_toNat_le.mp h.2
    simp only [UInt8.lt_iff_toNat_lt, UInt8.toNat_add] at h1 h2 ⊢
    simp only [UInt8.reduceToNat, Nat.reducePow] at h1 h2 ⊢
    omega
  · rfl

/-- On ASCII, both halves have the same lower case. -/
theorem lower_asciiText (c : Culture) {b : Bytes} (h : Ascii b) : c.lower (asciiText b) = asciiText (fold b) := by
  unfold Culture.lower asciiText fold
  rw [List.map_map, List.map_map]
  exact List.map_congr_left fun x hx => toLower_toUInt16 c (h x hx)

theorem asciiText_inj {a b : Bytes} (h : asciiText a = asciiText b) : a = b :=
  List.map_injective_iff.mpr (fun x y hxy => by
    have := congrArg UInt16.toNat hxy
    rw [UInt8.toNat_toUInt16, UInt8.toNat_toUInt16] at this
    exact UInt8.toNat_inj.mp this) h

end ModAspNet.L1.Managed
