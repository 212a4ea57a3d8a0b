import Mathlib.Data.List.Basic
import Mathlib.Tactic.Common

/-!
# References that are counted

A program acquires references and releases them by hand, and may raise in
between. The ledger records both, so that a reference released twice or never
can be told from one released once.

* `Owes`: the references that are held, every other one released once.
* `Owes.balanced_iff`: releases later on settle the ledger exactly when they
  are the references held.
* `runs_bind_ok`, `runs_bind_error`: a program that raises skips the rest.
-/
namespace ModAspNet.Core.Refs

/-! ## Programs that raise -/

section
variable {ε σ α β : Type}

/-- A program over the state `σ` that may raise; the state is kept. -/
abbrev Raising (ε σ : Type) := ExceptT ε (StateM σ)

def runs (p : Raising ε σ α) (s : σ) : Except ε α × σ := p.run.run s

theorem runs_bind_ok {p : Raising ε σ α} {f : α → Raising ε σ β} {s s' : σ} {a : α} (h : runs p s = (.ok a, s')) :
    runs (p >>= f) s = runs (f a) s' := by
  unfold runs at *
  simp only [ExceptT.run_bind, StateT.run_bind]
  rw [h]
  rfl

theorem runs_bind_error {p : Raising ε σ α} {f : α → Raising ε σ β} {s s' : σ} {x : ε}
    (h : runs p s = (.error x, s')) : runs (p >>= f) s = (.error x, s') := by
  unfold runs at *
  simp only [ExceptT.run_bind, StateT.run_bind]
  rw [h]
  rfl

theorem runs_bind_inv {p : Raising ε σ α} {f : α → Raising ε σ β} {s s'' : σ} {b : β}
    (h : runs (p >>= f) s = (.ok b, s'')) : ∃ a s', runs p s = (.ok a, s') ∧ runs (f a) s' = (.ok b, s'') := by
  match hp : runs p s with
  | (.error x, s') =>
    rw [runs_bind_error hp] at h
    cases h
  | (.ok a, s') =>
    rw [runs_bind_ok hp] at h
    exact ⟨a, s', rfl, h⟩

theorem runs_tryCatch_ok {p : Raising ε σ α} {handler : ε → Raising ε σ α} {s s' : σ} {a : α}
    (h : runs p s = (.ok a, s')) : runs (tryCatch p handler) s = (.ok a, s') := by
  unfold runs at *
  simp only [tryCatch, tryCatchThe, MonadExceptOf.tryCatch, ExceptT.tryCatch, ExceptT.run_mk, StateT.run_bind]
  rw [show StateT.run p s = (.ok a, s') from h]
  rfl

theorem runs_tryCatch_error {p : Raising ε σ α} {handler : ε → Raising ε σ α} {s s' : σ} {x : ε}
    (h : runs p s = (.error x, s')) : runs (tryCatch p handler) s = runs (handler x) s' := by
  unfold runs at *
  simp only [tryCatch, tryCatchThe, MonadExceptOf.tryCatch, ExceptT.tryCatch, ExceptT.run_mk, StateT.run_bind]
  rw [show StateT.run p s = (.error x, s') from h]
  rfl

end

/-! ## The ledger -/

/-- How many references were acquired, and each release. A reference is named
by how many were acquired before it. -/
structure Ledger where
  acquired : Nat
  released : List Nat

namespace Ledger

def empty : Ledger := ⟨0, []⟩

/-- The new reference is `l.acquired`. -/
def acquire (l : Ledger) : Ledger := { l with acquired := l.acquired + 1 }

def release (l : Ledger) (r : Nat) : Ledger := { l with released := r :: l.released }

/-- Any number of releases, the last one first. -/
def releases (l : Ledger) (rs : List Nat) : Ledger := { l with released := rs ++ l.released }

theorem releases_releases (l : Ledger) (rs later : List Nat) :
    (l.releases rs).releases later = l.releases (later ++ rs) := by
  unfold releases
  rw [List.append_assoc]

/-- Each reference acquired was released exactly once. -/
def Balanced (l : Ledger) : Prop := ∀ r < l.acquired, l.released.count r = 1

end Ledger

/-- The references in `held` were not released, every other one exactly once. -/
def Owes (l : Ledger) (held : List Nat) : Prop :=
  ∀ r, l.released.count r + held.count r = if r < l.acquired then 1 else 0

section
variable {l : Ledger} {held : List Nat} {r : Nat}

theorem owes_empty : Owes .empty [] := fun _ => rfl

theorem Owes.acquire (h : Owes l held) : Owes l.acquire (l.acquired :: held) := by
  intro r
  have hr := h r
  show l.released.count r + (l.acquired :: held).count r = if r < l.acquired + 1 then 1 else 0
  simp only [List.count_cons, beq_iff_eq]
  by_cases hnew : l.acquired = r
  · -- nothing named it before
    rw [if_neg (by omega)] at hr
    rw [if_pos hnew, if_pos (by omega)]
    omega
  · rw [if_neg hnew, Nat.add_zero, hr]
    exact if_congr (by omega) rfl rfl

theorem Owes.release (h : Owes l (r :: held)) : Owes (l.release r) held := by
  intro r'
  have hr := h r'
  show (r :: l.released).count r' + held.count r' = if r' < l.acquired then 1 else 0
  rw [List.count_cons] at hr ⊢
  omega

theorem Owes.perm {held' : List Nat} (h : Owes l held) (hp : held.Perm held') : Owes l held' :=
  fun r => by rw [← hp.count_eq]; exact h r

/-- A reference that is held is held once and was not released. -/
theorem Owes.of_mem (h : Owes l held) (hr : r ∈ held) :
    r < l.acquired ∧ held.count r = 1 ∧ l.released.count r = 0 := by
  have hcount := h r
  have hpos := List.count_pos_iff.mpr hr
  split at hcount
  · rename_i hlt
    exact ⟨hlt, by omega, by omega⟩
  · omega

theorem Owes.acquired_of_mem (h : Owes l held) (hr : r ∈ held) : r < l.acquired := (h.of_mem hr).1

/-- A reference is still held. -/
theorem Owes.not_balanced (h : Owes l held) (hr : r ∈ held) : ¬ l.Balanced := by
  obtain ⟨hlt, -, hnone⟩ := h.of_mem hr
  intro hb
  have hone := hb r hlt
  omega

/-- The new reference is not one that is held. -/
theorem Owes.fresh (h : Owes l held) : l.acquired ∉ held :=
  fun hr => absurd (h.acquired_of_mem hr) (Nat.lt_irrefl _)

/-- References released after all this. -/
theorem Owes.balanced_iff (h : Owes l held) (later : List Nat) :
    (l.releases later).Balanced ↔ ∀ r < l.acquired, later.count r = held.count r := by
  refine forall₂_congr fun r (hr : r < l.acquired) => ?_
  have := h r
  rw [if_pos hr] at this
  show (later ++ l.released).count r = 1 ↔ later.count r = held.count r
  rw [List.count_append]
  omega

end

end ModAspNet.Core.Refs
