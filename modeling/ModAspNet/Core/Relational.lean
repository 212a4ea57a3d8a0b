import ModAspNet.Core.Refs

/-!
# Two runs side by side

What a program does not depend on can be said with two runs of it: from states
that differ only there, both return or raise the same and end in states that
differ only there.

* `Relates R p q R'`: from states with `R`, `p` and `q` end alike, with `R'`.
* One rule for each way of putting programs together.
-/
namespace ModAspNet.Core.Refs

section
variable {ε σ α β : Type} {R R' M : σ → σ → Prop}

/-- The runs of `p` and `q` from related states have the same result, and end in
related states. -/
def Relates (R : σ → σ → Prop) (p q : Raising ε σ α) (R' : σ → σ → Prop) : Prop :=
  ∀ s s', R s s' → (runs p s).1 = (runs q s').1 ∧ R' (runs p s).2 (runs q s').2

theorem Relates.weaken {p q : Raising ε σ α} (h : Relates R p q M) (hM : ∀ s s', M s s' → R' s s') : Relates R p q R' :=
  fun s s' hs => ⟨(h s s' hs).1, hM _ _ (h s s' hs).2⟩

theorem Relates.strengthen {p q : Raising ε σ α} (h : Relates M p q R') (hM : ∀ s s', R s s' → M s s') :
    Relates R p q R' :=
  fun s s' hs => h s s' (hM s s' hs)

theorem relates_pure (a : α) : Relates R (pure a : Raising ε σ α) (pure a) R := fun _ _ h => ⟨rfl, h⟩

theorem relates_throw (x : ε) : Relates R (throw x : Raising ε σ α) (throw x) R := fun _ _ h => ⟨rfl, h⟩

theorem relates_modify {f g : σ → σ} (h : ∀ s s', R s s' → R' (f s) (g s')) :
    Relates R (modify f : Raising ε σ PUnit) (modify g) R' :=
  fun s s' hs => ⟨rfl, h s s' hs⟩

/-- After `p` and `q` comes the same or what is related; one that raises skips
the rest. -/
theorem Relates.bind {p q : Raising ε σ α} {f g : α → Raising ε σ β} (h : Relates R p q M)
    (hf : ∀ a, Relates M (f a) (g a) R') (hM : ∀ s s', M s s' → R' s s') : Relates R (p >>= f) (q >>= g) R' := by
  intro s s' hs
  obtain ⟨hres, hend⟩ := h s s' hs
  match hp : runs p s, hq : runs q s' with
  | (.error x, t), (.error x', t') =>
    rw [hp, hq] at hres hend
    cases hres
    rw [runs_bind_error hp, runs_bind_error hq]
    exact ⟨rfl, hM t t' hend⟩
  | (.ok a, t), (.ok a', t') =>
    rw [hp, hq] at hres hend
    cases hres
    rw [runs_bind_ok hp, runs_bind_ok hq]
    exact hf a t t' hend
  | (.error x, t), (.ok a, t') => rw [hp, hq] at hres; cases hres
  | (.ok a, t), (.error x, t') => rw [hp, hq] at hres; cases hres

/-- The invariant of a sequence. -/
theorem Relates.seq {p q : Raising ε σ α} {f g : α → Raising ε σ β} (h : Relates R p q R)
    (hf : ∀ a, Relates R (f a) (g a) R) : Relates R (p >>= f) (q >>= g) R :=
  h.bind hf fun _ _ => id

theorem Relates.tryCatch {p q : Raising ε σ α} {f g : ε → Raising ε σ α} (h : Relates R p q R)
    (hf : ∀ x, Relates R (f x) (g x) R) : Relates R (tryCatch p f) (tryCatch q g) R := by
  intro s s' hs
  obtain ⟨hres, hend⟩ := h s s' hs
  match hp : runs p s, hq : runs q s' with
  | (.error x, t), (.error x', t') =>
    rw [hp, hq] at hres hend
    cases hres
    rw [runs_tryCatch_error hp, runs_tryCatch_error hq]
    exact hf x t t' hend
  | (.ok a, t), (.ok a', t') =>
    rw [hp, hq] at hres hend
    cases hres
    rw [runs_tryCatch_ok hp, runs_tryCatch_ok hq]
    exact ⟨rfl, hend⟩
  | (.error x, t), (.ok a, t') => rw [hp, hq] at hres; cases hres
  | (.ok a, t), (.error x, t') => rw [hp, hq] at hres; cases hres

/-- Both states are read. -/
theorem relates_get {f g : σ → Raising ε σ β} (hf : ∀ s s', R s s' → Relates R (f s) (g s') R') :
    Relates R (get >>= f) (get >>= g) R' := by
  intro s s' hs
  have hget : ∀ s : σ, runs (get : Raising ε σ σ) s = (.ok s, s) := fun _ => rfl
  rw [runs_bind_ok (hget s), runs_bind_ok (hget s')]
  exact hf s s' hs s s' hs

theorem relates_forM {γ : Type} {f : γ → Raising ε σ PUnit} (hf : ∀ c, Relates R (f c) (f c) R) (l : List γ) :
    Relates R (l.forM f) (l.forM f) R := by
  induction l with
  | nil => exact relates_pure _
  | cons c l ih => exact (hf c).seq fun _ => ih

end

end ModAspNet.Core.Refs
