import Mathlib.Data.List.Basic
import Mathlib.Data.List.Nodup
import Mathlib.Tactic.Common

/-!
# Association tables whose keys are compared through a view

A table is the list of its entries. Two keys are the same key when a view of
them is equal (`view`: the bytes a pointer shows, say), and setting a value
under a key that is there already keeps the stored key and replaces the value,
so the table may go on holding a key that is equal to, but not, the one it was
last set with.

* `get_set_self`, `get_set_of_ne`: reading back after a write.
* `vals_put_self`, `vals_put_of_ne`: the same for a table that may hold a key
  several times and whose write replaces all of them.
* `find?_hit_const_iff`: the first hit in every order of the entries has the
  same image exactly when all hits have it.
-/
namespace ModAspNet.Core.Assoc

section Table
variable {κ ν β : Type} [DecidableEq β] (view : κ → β)

def get (t : List (κ × ν)) (b : β) : Option ν :=
  (t.find? fun e => decide (view e.1 = b)).map Prod.snd

/-- Replace the value in place, or append a new entry. -/
def set : List (κ × ν) → κ → ν → List (κ × ν)
  | [], k, v => [(k, v)]
  | e :: t, k, v => if view e.1 = view k then (e.1, v) :: t else e :: set t k v

variable {view}

@[simp] theorem get_nil (b : β) : get view ([] : List (κ × ν)) b = none := rfl

theorem get_cons (e : κ × ν) (t : List (κ × ν)) (b : β) :
    get view (e :: t) b = if view e.1 = b then some e.2 else get view t b := by
  unfold get
  by_cases h : view e.1 = b <;> simp [h]

theorem get_set_self (t : List (κ × ν)) (k : κ) (v : ν) :
    get view (set view t k v) (view k) = some v := by
  induction t with
  | nil => simp [set, get_cons]
  | cons e t ih =>
    by_cases h : view e.1 = view k
    · simp [set, h, get_cons]
    · simp [set, h, get_cons, ih]

theorem get_set_of_ne (t : List (κ × ν)) (k : κ) (v : ν) {b : β} (hb : view k ≠ b) :
    get view (set view t k v) b = get view t b := by
  induction t with
  | nil => simp [set, get_cons, hb]
  | cons e t ih =>
    by_cases h : view e.1 = view k
    · simp [set, h, get_cons, hb]
    · simp [set, h, get_cons, ih]

theorem get_eq_none {t : List (κ × ν)} {b : β} : get view t b = none ↔ ∀ e ∈ t, view e.1 ≠ b := by
  simp [get, List.find?_eq_none]

/-- An entry after a write is the new value under an equal key, or was there. -/
theorem mem_set {t : List (κ × ν)} {k : κ} {v : ν} {e : κ × ν} (h : e ∈ set view t k v) :
    (e.2 = v ∧ (e.1 = k ∨ ∃ w, (e.1, w) ∈ t) ∧ view e.1 = view k) ∨ e ∈ t := by
  induction t with
  | nil =>
    simp only [set, List.mem_singleton] at h
    subst h; exact .inl ⟨rfl, .inl rfl, rfl⟩
  | cons a t ih =>
    unfold set at h
    split at h
    · rename_i ha
      rcases List.mem_cons.mp h with rfl | h
      · exact .inl ⟨rfl, .inr ⟨a.2, by simp⟩, ha⟩
      · exact .inr (List.mem_cons_of_mem _ h)
    · rcases List.mem_cons.mp h with rfl | h
      · exact .inr (by simp)
      · rcases ih h with ⟨h1, h2, h3⟩ | h
        · refine .inl ⟨h1, h2.imp_right ?_, h3⟩
          rintro ⟨w, hw⟩; exact ⟨w, List.mem_cons_of_mem _ hw⟩
        · exact .inr (List.mem_cons_of_mem _ h)

/-- A write adds at most the key it is for. -/
theorem map_view_set (t : List (κ × ν)) (k : κ) (v : ν) :
    (set view t k v).map (fun e => view e.1) = if view k ∈ t.map (fun e => view e.1) then t.map (fun e => view e.1)
      else t.map (fun e => view e.1) ++ [view k] := by
  induction t with
  | nil => simp [set]
  | cons e t ih =>
    by_cases h : view e.1 = view k
    · simp [set, h]
    · rw [set, if_neg h, List.map_cons, ih, List.map_cons]
      by_cases hm : view k ∈ t.map (fun e => view e.1)
      · rw [if_pos hm, if_pos (List.mem_cons_of_mem _ hm)]
      · rw [if_neg hm, if_neg (by rw [List.mem_cons, not_or]; exact ⟨Ne.symm h, hm⟩), List.cons_append]

theorem nodup_set {t : List (κ × ν)} (h : (t.map fun e => view e.1).Nodup) (k : κ) (v : ν) :
    ((set view t k v).map fun e => view e.1).Nodup := by
  rw [map_view_set]
  split
  · exact h
  · rename_i hm
    exact List.nodup_append.mpr ⟨h, List.nodup_singleton _, fun a ha b hb => by
      rw [List.mem_singleton.mp hb]
      rintro rfl
      exact hm ha⟩

/-- Where no two keys are equal, an entry is what its key finds. -/
theorem get_of_mem {t : List (κ × ν)} (h : (t.map fun e => view e.1).Nodup) {e : κ × ν} (he : e ∈ t) :
    get view t (view e.1) = some e.2 := by
  induction t with
  | nil => cases he
  | cons a t ih =>
    obtain ⟨hfresh, hnodup⟩ := List.nodup_cons.mp h
    rw [get_cons]
    rcases List.mem_cons.mp he with rfl | he
    · rw [if_pos rfl]
    · have hne : view a.1 ≠ view e.1 := fun heq =>
        hfresh (List.mem_map.mpr ⟨e, he, heq.symm⟩)
      rw [if_neg hne, ih hnodup he]

/-- A write under a key that is not there appends. -/
theorem set_of_get_none {t : List (κ × ν)} {k : κ} (v : ν) (h : get view t (view k) = none) :
    set view t k v = t ++ [(k, v)] := by
  induction t with
  | nil => rfl
  | cons e t ih =>
    rw [get_eq_none] at h
    have he := h e (by simp)
    rw [set, if_neg he, ih (get_eq_none.mpr fun e' he' => h e' (List.mem_cons_of_mem _ he'))]
    rfl

end Table

section Multi
variable {κ ν β : Type} [DecidableEq β] (view : κ → β)

/-- All values under a key, in the order of the table. -/
def vals (t : List (κ × ν)) (b : β) : List ν := (t.filter fun e => decide (view e.1 = b)).map Prod.snd

/-- Replace the first entry of the key and drop its other entries, or append. -/
def put : List (κ × ν) → κ → ν → List (κ × ν)
  | [], k, v => [(k, v)]
  | e :: t, k, v =>
    if view e.1 = view k then (e.1, v) :: t.filter fun e' => decide (view e'.1 ≠ view k)
    else e :: put t k v

variable {view}

theorem vals_cons (e : κ × ν) (t : List (κ × ν)) (b : β) :
    vals view (e :: t) b = if view e.1 = b then e.2 :: vals view t b else vals view t b := by
  unfold vals
  by_cases h : view e.1 = b <;> simp [h]

theorem vals_filter_ne (t : List (κ × ν)) (b b' : β) :
    vals view (t.filter fun e => decide (view e.1 ≠ b)) b' = if b' = b then [] else vals view t b' := by
  induction t with
  | nil => simp [vals]
  | cons e t ih =>
    by_cases he : view e.1 = b
    · rw [List.filter_cons_of_neg (by simp [he]), ih, vals_cons]
      by_cases hb : b' = b
      · simp [hb]
      · rw [if_neg hb, if_neg hb, if_neg (fun h => hb (h.symm.trans he))]
    · rw [List.filter_cons_of_pos (by simp [he]), vals_cons, ih, vals_cons]
      by_cases hb : b' = b
      · subst hb; simp [he]
      · simp [hb]

theorem vals_put_self (t : List (κ × ν)) (k : κ) (v : ν) : vals view (put view t k v) (view k) = [v] := by
  induction t with
  | nil => simp [put, vals]
  | cons e t ih =>
    unfold put
    split
    · rename_i h; rw [vals_cons, if_pos h, vals_filter_ne, if_pos rfl]
    · rename_i h; rw [vals_cons, if_neg h, ih]

theorem vals_put_of_ne (t : List (κ × ν)) (k : κ) (v : ν) {b : β} (hb : view k ≠ b) :
    vals view (put view t k v) b = vals view t b := by
  induction t with
  | nil => simp [put, vals, hb]
  | cons e t ih =>
    unfold put
    split
    · rename_i h
      have hne : view e.1 ≠ b := h ▸ hb
      rw [vals_cons, if_neg hne, vals_filter_ne, if_neg (Ne.symm hb), vals_cons, if_neg hne]
    · rw [vals_cons, vals_cons, ih]

end Multi

section Order
variable {α γ : Type}

/-- Whatever the order in which a collection is enumerated, the first element
that passes a test has image `c`, exactly when every element that passes has:
any of them may come first. -/
theorem find?_hit_const_iff (p : α → Bool) (f : α → γ) (l : List α) (c : γ)
    (hne : ∃ a ∈ l, p a = true) :
    (∀ e : List α, e.Perm l → (e.find? p).map f = some c) ↔ ∀ a ∈ l, p a = true → f a = c := by
  constructor
  · intro h a ha hp
    obtain ⟨s, t, rfl⟩ := List.append_of_mem ha
    have := h (a :: (s ++ t)) List.perm_middle.symm
    simpa [hp] using this
  · intro h e he
    obtain ⟨a, ha, hp⟩ := hne
    cases hf : e.find? p with
    | none => exact absurd hp (by simpa using List.find?_eq_none.mp hf a (he.mem_iff.mpr ha))
    | some b =>
      have hb := h b (he.mem_iff.mp (List.mem_of_find?_eq_some hf)) (List.find?_some hf)
      simp [hb]

end Order

end ModAspNet.Core.Assoc
