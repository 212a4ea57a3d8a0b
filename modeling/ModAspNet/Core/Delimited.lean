import Mathlib.Data.List.TakeWhile

/-!
# Blocks of delimited strings

A block is a list of strings that are not empty, with a delimiter behind each
and one more at the end; what reads it stops at the first empty string. A string
of it can be a name and a value with a sign in between.

* `readBlock_block`: the strings come back when the delimiter is in none.
* `cut_entry_iff`: a name and its value come back exactly when the sign is not
  in the name.
* `readEntries_iff`: both together.
-/
namespace ModAspNet.Core

section
variable {α : Type} [DecidableEq α] {z e : α}

def block (z : α) (strings : List (List α)) : List α := strings.flatMap (· ++ [z]) ++ [z]

/-- The strings up to the first empty one. -/
def readBlock (z : α) (s : List α) : List (List α) := (s.splitOn z).takeWhile (· ≠ [])

theorem readBlock_block {strings : List (List α)} (hne : ∀ s ∈ strings, s ≠ []) (hz : ∀ s ∈ strings, z ∉ s) :
    readBlock z (block z strings) = strings := by
  unfold readBlock block
  induction strings with
  | nil => simp [List.splitOn_cons_eq_if_modifyHead]
  | cons s strings ih =>
    have hs := hne s (List.mem_cons_self ..)
    rw [List.flatMap_cons, List.append_assoc, List.append_assoc, List.singleton_append,
      List.splitOn_append_cons_self_of_not_mem (hz s (List.mem_cons_self ..)),
      List.takeWhile_cons_of_pos (by simpa using hs),
      ih (fun s' h => hne s' (List.mem_cons_of_mem _ h)) fun s' h => hz s' (List.mem_cons_of_mem _ h)]

/-- A name and a value. -/
def entry (e : α) (p : List α × List α) : List α := p.1 ++ e :: p.2

/-- A string up to the first sign, and what comes behind it. -/
def cut (e : α) (s : List α) : List α × List α := (s.takeWhile (· ≠ e), (s.dropWhile (· ≠ e)).tail)

theorem cut_entry {p : List α × List α} (h : e ∉ p.1) : cut e (entry e p) = p := by
  have hall : ∀ a ∈ p.1, decide (a ≠ e) = true := fun a ha => by
    have hne : a ≠ e := fun he => h (he ▸ ha)
    simpa using hne
  have hstop : decide (e ≠ e) = false := by simp
  unfold cut entry
  rw [List.takeWhile_append_of_pos hall, List.dropWhile_append_of_pos hall, List.takeWhile_cons, List.dropWhile_cons]
  simp

theorem cut_entry_iff {p : List α × List α} : cut e (entry e p) = p ↔ e ∉ p.1 := by
  refine ⟨fun h he => ?_, cut_entry⟩
  rw [← h] at he
  have hkept := List.mem_takeWhile_imp he
  simp at hkept

def readEntries (z e : α) (s : List α) : List (List α × List α) := (readBlock z s).map (cut e)

/-- A block of entries is read as it was written exactly when no name has the
sign in it. -/
theorem readEntries_iff (hze : z ≠ e) {entries : List (List α × List α)}
    (hz : ∀ p ∈ entries, z ∉ p.1 ∧ z ∉ p.2) :
    readEntries z e (block z (entries.map (entry e))) = entries ↔ ∀ p ∈ entries, e ∉ p.1 := by
  have hread : readBlock z (block z (entries.map (entry e))) = entries.map (entry e) := by
    refine readBlock_block (fun s hs => ?_) fun s hs => ?_
    · obtain ⟨p, -, rfl⟩ := List.mem_map.mp hs
      simp [entry]
    · obtain ⟨p, hp, rfl⟩ := List.mem_map.mp hs
      simp [entry, hz p hp, hze]
  rw [readEntries, hread, List.map_map]
  constructor
  · intro h p hp
    have hid : entries.map (cut e ∘ entry e) = entries.map id := h.trans (List.map_id _).symm
    exact cut_entry_iff.mp (List.map_inj_left.mp hid p hp)
  · intro h
    exact (List.map_congr_left fun p hp => cut_entry (h p hp)).trans (List.map_id _)

end

end ModAspNet.Core
