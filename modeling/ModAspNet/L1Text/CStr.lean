import Mathlib.Data.List.Basic
import Mathlib.Data.List.Infix
import Mathlib.Data.List.TakeWhile
import Mathlib.Tactic.Common

/-!
# C strings

The native half of the module (`mod/mod_aspdotnet.cpp`) works on `char *`
and compares with `strcasecmp` / `strncasecmp`, which
`apache2_4_include/apr_general.h:118-124` maps to `stricmp` / `strnicmp`.
httpd never leaves the `"C"` locale, so both fold `A`..`Z` only.

* `CString`: the bytes before the terminating NUL, none of them NUL.
* `strcasecmp_eq_zero`: two C strings compare equal exactly when their
  folded bytes are equal.
* `strncasecmp_eq_zero`: comparing over the whole first string asks whether
  its folded bytes begin those of the second.
-/
namespace ModAspNet.L1.CStr

abbrev Bytes := List UInt8

/-- The bytes of an ASCII literal of the source. -/
def lit (s : String) : Bytes := s.toList.map fun c => c.val.toUInt8

/-- `tolower` of the `"C"` locale. -/
def tolower (c : UInt8) : UInt8 := if 65 ≤ c ∧ c ≤ 90 then c + 32 else c

theorem tolower_eq_zero (c : UInt8) : tolower c = 0 ↔ c = 0 := by
  unfold tolower
  split
  · rename_i h
    have h1 := UInt8.le_iff_toNat_le.mp h.1
    have h2 := UInt8.le_iff_toNat_le.mp h.2
    simp only [← UInt8.toNat_inj, UInt8.toNat_add] at h1 h2 ⊢
    simp only [UInt8.reduceToNat, Nat.reducePow] at h1 h2 ⊢
    omega
  · rfl

/-- A C string without its terminator. -/
structure CString where
  val : Bytes
  nonul : 0 ∉ val
  deriving DecidableEq

def CString.length (s : CString) : Nat := s.val.length

/-- The C string that starts at the head of a buffer. -/
def cstr (b : Bytes) : CString :=
  ⟨b.takeWhile (· ≠ 0), fun h => by simpa using List.mem_takeWhile_imp h⟩

theorem cstr_val_of_nonul {b : Bytes} (h : 0 ∉ b) (rest : Bytes) :
    (cstr (b ++ 0 :: rest)).val = b := by
  simp only [cstr]
  rw [List.takeWhile_append_of_pos (fun x hx => by simpa using fun e : x = 0 => h (e ▸ hx))]
  simp

theorem cstr_of_nonul {b : Bytes} (h : 0 ∉ b) : (cstr b).val = b :=
  List.takeWhile_eq_self_iff.mpr fun x hx => by simpa using fun e : x = 0 => h (e ▸ hx)

theorem CString.ext_val {a b : CString} (h : a.val = b.val) : a = b := by
  cases a; cases b; simpa using h

theorem cstr_terminated (s : CString) (rest : Bytes) : cstr (s.val ++ 0 :: rest) = s :=
  CString.ext_val (cstr_val_of_nonul s.nonul rest)

/-- `strcasecmp`: the difference of the first folded bytes that differ, the
end of a string counting as NUL. -/
def strcasecmp : Bytes → Bytes → Int
  | [], [] => 0
  | [], b :: _ => -(tolower b).toNat
  | a :: _, [] => (tolower a).toNat
  | a :: as, b :: bs =>
    if tolower a ≠ tolower b then (tolower a).toNat - (tolower b).toNat else strcasecmp as bs

/-- `strncasecmp`: as `strcasecmp`, over at most `n` characters. -/
def strncasecmp : Nat → Bytes → Bytes → Int
  | 0, _, _ => 0
  | _ + 1, [], [] => 0
  | _ + 1, [], b :: _ => -(tolower b).toNat
  | _ + 1, a :: _, [] => (tolower a).toNat
  | n + 1, a :: as, b :: bs =>
    if tolower a ≠ tolower b then (tolower a).toNat - (tolower b).toNat else strncasecmp n as bs

/-- The bytes of a string with case folded away. -/
def fold (b : Bytes) : Bytes := b.map tolower

@[simp] theorem fold_nil : fold [] = [] := rfl

@[simp] theorem fold_cons (a : UInt8) (b : Bytes) : fold (a :: b) = tolower a :: fold b := rfl

@[simp] theorem fold_length (b : Bytes) : (fold b).length = b.length := by simp [fold]

theorem toNat_sub_eq_zero (x y : UInt8) : ((x.toNat : Int) - y.toNat = 0) ↔ x = y := by
  rw [← UInt8.toNat_inj]; omega

theorem tolower_toNat_ne_zero {c : UInt8} {s : Bytes} (h : 0 ∉ c :: s) : (tolower c).toNat ≠ 0 := by
  intro e
  have : tolower c = 0 := UInt8.toNat_inj.mp (by simpa using e)
  exact h (by rw [(tolower_eq_zero c).mp this]; simp)

theorem strcasecmp_eq_zero' : ∀ (a b : Bytes), 0 ∉ a → 0 ∉ b → (strcasecmp a b = 0 ↔ fold a = fold b)
  | [], [], _, _ => by simp [strcasecmp]
  | [], b :: _, _, hb => by simp [strcasecmp, tolower_toNat_ne_zero hb]
  | a :: _, [], ha, _ => by simp [strcasecmp, tolower_toNat_ne_zero ha]
  | a :: as, b :: bs, ha, hb => by
    simp only [List.mem_cons, not_or] at ha hb
    unfold strcasecmp
    split
    · rename_i h; simp [toNat_sub_eq_zero, h]
    · rename_i h
      rw [strcasecmp_eq_zero' as bs ha.2 hb.2]
      simp only [not_not] at h; simp [h]

theorem strcasecmp_eq_zero (a b : CString) : strcasecmp a.val b.val = 0 ↔ fold a.val = fold b.val :=
  strcasecmp_eq_zero' a.val b.val a.nonul b.nonul

theorem strncasecmp_eq_zero' : ∀ (a b : Bytes), 0 ∉ a →
    (strncasecmp a.length a b = 0 ↔ fold a <+: fold b)
  | [], _, _ => by simp [strncasecmp]
  | a :: as, [], ha => by simp [strncasecmp, tolower_toNat_ne_zero ha]
  | a :: as, b :: bs, ha => by
    simp only [List.mem_cons, not_or] at ha
    simp only [List.length_cons, strncasecmp, fold_cons, List.cons_prefix_cons]
    split
    · rename_i h; simp [toNat_sub_eq_zero, h]
    · rename_i h
      rw [strncasecmp_eq_zero' as bs ha.2]
      simp only [not_not] at h; simp [h]

/-- Over the whole of `a`, `strncasecmp` asks whether `a` begins `b`. -/
theorem strncasecmp_eq_zero (a : CString) (b : Bytes) :
    strncasecmp a.length a.val b = 0 ↔ fold a.val <+: fold b :=
  strncasecmp_eq_zero' a.val b a.nonul

end ModAspNet.L1.CStr
