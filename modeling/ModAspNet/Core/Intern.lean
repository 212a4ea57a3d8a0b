import Mathlib.Data.List.Basic
import Mathlib.Data.List.Nodup
import Mathlib.Tactic.Common

/-!
# Interning

A table of distinct keys, each named by its position. Interning a key returns
its name, adding it at the end when it is new.

* `intern_named`: the name returned reads back the key.
* `intern_prefix`: names handed out before keep their meaning.
* `name_eq_iff`: in a table without repeats, names are equal exactly when the
  keys are.
-/
namespace ModAspNet.Core.Intern

variable {κ : Type} [DecidableEq κ]

/-- The position of a key (the length of the table when it is absent). -/
def name (t : List κ) (k : κ) : Nat := t.findIdx fun x => decide (x = k)

def intern (t : List κ) (k : κ) : Nat × List κ :=
  if k ∈ t then (name t k, t) else (t.length, t ++ [k])

theorem name_cons (a : κ) (t : List κ) (k : κ) :
    name (a :: t) k = if a = k then 0 else name t k + 1 := by
  unfold name
  by_cases h : a = k <;> simp [List.findIdx_cons, h]

theorem intern_of_mem {t : List κ} {k : κ} (h : k ∈ t) : intern t k = (name t k, t) := by
  simp [intern, h]

theorem intern_of_not_mem {t : List κ} {k : κ} (h : k ∉ t) : intern t k = (t.length, t ++ [k]) := by
  simp [intern, h]

theorem get_name {t : List κ} {k : κ} (h : k ∈ t) : t[name t k]? = some k := by
  have hlt : name t k < t.length := List.findIdx_lt_length_of_exists ⟨k, h, by simp⟩
  have hk : decide (t[name t k] = k) = true := List.findIdx_getElem (p := fun x => decide (x = k)) (w := hlt)
  simp only [decide_eq_true_eq] at hk
  rw [List.getElem?_eq_getElem hlt, hk]

theorem intern_named (t : List κ) (k : κ) : (intern t k).2[(intern t k).1]? = some k := by
  by_cases h : k ∈ t
  · rw [intern_of_mem h]; exact get_name h
  · rw [intern_of_not_mem h]; simp

theorem intern_prefix (t : List κ) (k : κ) : t <+: (intern t k).2 := by
  unfold intern
  split
  · exact List.prefix_refl t
  · exact List.prefix_append t [k]

theorem intern_nodup {t : List κ} (k : κ) (h : t.Nodup) : (intern t k).2.Nodup := by
  unfold intern
  split
  · exact h
  · rename_i hk
    exact List.nodup_append.mpr ⟨h, by simp, fun a ha b hb => by
      simp only [List.mem_singleton] at hb; rintro rfl; exact hk (hb ▸ ha)⟩

omit [DecidableEq κ] in
/-- A name handed out stays valid in every longer table. -/
theorem named_of_prefix {t t' : List κ} {i : Nat} {k : κ} (h : t <+: t') (hi : t[i]? = some k) :
    t'[i]? = some k := by
  obtain ⟨s, rfl⟩ := h
  have hlt : i < t.length := (List.getElem?_eq_some_iff.mp hi).1
  rw [List.getElem?_append_left hlt, hi]

omit [DecidableEq κ] in
theorem name_eq_iff {t : List κ} (h : t.Nodup) {i j : Nat} {a b : κ} (hi : t[i]? = some a)
    (hj : t[j]? = some b) : i = j ↔ a = b := by
  obtain ⟨hi', rfl⟩ := List.getElem?_eq_some_iff.mp hi
  obtain ⟨hj', rfl⟩ := List.getElem?_eq_some_iff.mp hj
  exact (h.getElem_inj_iff).symm

end ModAspNet.Core.Intern
