import Mathlib.Data.List.Nodup
import Mathlib.Data.Set.Basic
import ModAspNet.Core.RelyGuarantee

/-!
# Tokens

Some operations hand out a token, a new one each time, and some spend one they
are given. The state keeps which tokens were made and, in order, which were
spent. A program is `Frugal` with a set of tokens when it spends only what is in
the set or was handed to it on the way, nothing twice; there is one rule for each
way programs are built.

* `Held.step`: what one operation does to who holds which tokens.
* `Tokens.run`: threads whose calls are frugal with nothing never spend a token
  twice, however they interleave.
-/
namespace ModAspNet.Core

variable {Op : Type} {Ans : Op → Type} {ε χ σ C α β τ : Type}

/-- `gives` is the token an operation hands out with an answer, `takes` the
token it may spend; a spent token is spent at the end of the list. -/
structure Tokens (exec : Exec Op Ans ε χ σ) (τ : Type) where
  made : σ → Set τ
  spent : σ → List τ
  gives : (o : Op) → Except ε (Ans o) → Option τ
  takes : Op → Option τ
  made_mono : ∀ {t o x s r s'}, exec t o x s = some (r, s') → made s ⊆ made s'
  gives_new : ∀ {t o x s r s' a}, exec t o x s = some (r, s') → gives o r = some a → a ∉ made s ∧ a ∈ made s'
  spends : ∀ {t o x s r s'}, exec t o x s = some (r, s') →
    spent s' = spent s ∨ ∃ a, takes o = some a ∧ spent s' = spent s ++ [a]

namespace Tokens
variable {exec : Exec Op Ans ε χ σ} (K : Tokens exec τ)

/-- What a thread holds after an operation. -/
def after (A : Set τ) (o : Op) (r : Except ε (Ans o)) : Set τ :=
  {a | (a ∈ A ∧ K.takes o ≠ some a) ∨ K.gives o r = some a}

/-- The program spends only tokens of the set and those it is given. -/
def Frugal : Prog Op Ans ε α → Set τ → Prop
  | .ret _, _ => True
  | .throw _, _ => True
  | .call o k, A => (∀ a, K.takes o = some a → a ∈ A) ∧ ∀ r, Frugal (k r) (K.after A o r)

/-! ## Frugal programs -/

section
variable {K} {A B : Set τ}

theorem Frugal.mono : ∀ {p : Prog Op Ans ε α} {A B : Set τ}, K.Frugal p A → A ⊆ B → K.Frugal p B
  | .ret _, _, _, _, _ => trivial
  | .throw _, _, _, _, _ => trivial
  | .call _ _, _, _, h, hAB =>
    ⟨fun a ha => hAB (h.1 a ha), fun r => (h.2 r).mono fun _ ha => ha.imp_left fun ha => ⟨hAB ha.1, ha.2⟩⟩

theorem Frugal.pure (a : α) : K.Frugal (pure a : Prog Op Ans ε α) A := trivial

/-- A program whose operations spend nothing. -/
theorem Frugal.of_performs : ∀ {p : Prog Op Ans ε α} {A : Set τ}, p.Performs (fun o => K.takes o = none) → K.Frugal p A
  | .ret _, _, _ => trivial
  | .throw _, _, _ => trivial
  | .call _ _, _, h => ⟨fun a ha => (by rw [h.1] at ha; cases ha), fun r => .of_performs (h.2 r)⟩

theorem Frugal.bind {f : α → Prog Op Ans ε β} (hf : ∀ a, K.Frugal (f a) ∅) :
    ∀ {p : Prog Op Ans ε α} {A : Set τ}, K.Frugal p A → K.Frugal (p >>= f) A
  | .ret a, A, _ => (hf a).mono (Set.empty_subset A)
  | .throw _, _, _ => trivial
  | .call _ _, _, h => ⟨h.1, fun r => .bind hf (h.2 r)⟩

/-- The tokens an operation answers with are for what follows it. -/
theorem Frugal.perform_bind {o : Op} {f : Ans o → Prog Op Ans ε β} (htakes : ∀ a, K.takes o = some a → a ∈ A)
    (hf : ∀ v, K.Frugal (f v) (K.after A o (.ok v))) : K.Frugal (Prog.perform o >>= f) A :=
  ⟨htakes, fun
    | .ok v => hf v
    | .error _ => trivial⟩

theorem Frugal.attempt : ∀ {p : Prog Op Ans ε α} {A : Set τ}, K.Frugal p A → K.Frugal p.attempt A
  | .ret _, _, _ => trivial
  | .throw _, _, _ => trivial
  | .call _ _, _, h => ⟨h.1, fun r => (h.2 r).attempt⟩

theorem Frugal.tryCatch {p : Prog Op Ans ε α} {handler : ε → Prog Op Ans ε α} (h : K.Frugal p A)
    (hh : ∀ e, K.Frugal (handler e) ∅) : K.Frugal (p.tryCatch handler) A :=
  .bind (fun
    | .ok _ => trivial
    | .error e => hh e) h.attempt

end

/-! ## Who holds what -/

/-- Each thread's tokens are its own, made and not spent. -/
structure Held (held : Nat → Set τ) (s : σ) : Prop where
  apart : ∀ t t' a, a ∈ held t → a ∈ held t' → t = t'
  made : ∀ t a, a ∈ held t → a ∈ K.made s
  unspent : ∀ t a, a ∈ held t → a ∉ K.spent s
  spent_made : ∀ a, a ∈ K.spent s → a ∈ K.made s
  nodup : (K.spent s).Nodup

variable {K}

theorem Held.step {held : Nat → Set τ} {t : Nat} {o : Op} {x : χ} {s s' : σ} {r : Except ε (Ans o)}
    (h : K.Held held s) (htakes : ∀ a, K.takes o = some a → a ∈ held t) (hx : exec t o x s = some (r, s')) :
    K.Held (setAt held t (K.after (held t) o r)) s' := by
  have hnew : ∀ a, K.gives o r = some a → a ∉ K.made s ∧ a ∈ K.made s' := fun a => K.gives_new hx
  -- a token in some hand now is new, or was in the same hand and is not the one spent
  have hwas : ∀ u a, a ∈ setAt held t (K.after (held t) o r) u →
      (a ∈ held u ∧ K.takes o ≠ some a) ∨ (u = t ∧ K.gives o r = some a) := by
    intro u a ha
    by_cases hu : u = t
    · subst hu
      rw [setAt_self] at ha
      exact ha.imp_right fun hg => ⟨rfl, hg⟩
    · rw [setAt_of_ne _ _ hu] at ha
      exact .inl ⟨ha, fun he => hu (h.apart u t a ha (htakes a he))⟩
  have hspent : ∀ a, a ∈ K.spent s' → a ∈ K.spent s ∨ K.takes o = some a := by
    intro a ha
    rcases K.spends hx with he | ⟨b, hb, he⟩
    · exact .inl (he ▸ ha)
    · rw [he] at ha
      exact (List.mem_append.mp ha).imp_right fun hab => by rw [hb, List.mem_singleton.mp hab]
  refine ⟨fun u u' a ha ha' => ?_, fun u a ha => ?_, fun u a ha hs => ?_, fun a ha => ?_, ?_⟩
  · rcases hwas u a ha with ⟨hu, -⟩ | ⟨rfl, hg⟩ <;> rcases hwas u' a ha' with ⟨hu', -⟩ | ⟨rfl, hg'⟩
    · exact h.apart u u' a hu hu'
    · exact absurd (h.made u a hu) (hnew a hg').1
    · exact absurd (h.made u' a hu') (hnew a hg).1
    · rfl
  · exact (hwas u a ha).elim (fun hu => K.made_mono hx (h.made u a hu.1)) fun hg => (hnew a hg.2).2
  · rcases hwas u a ha with ⟨hu, hne⟩ | ⟨-, hg⟩ <;> rcases hspent a hs with hs | hs
    · exact h.unspent u a hu hs
    · exact hne hs
    · exact (hnew a hg).1 (h.spent_made a hs)
    · exact (hnew a hg).1 (h.made t a (htakes a hs))
  · exact (hspent a ha).elim (fun hs => K.made_mono hx (h.spent_made a hs))
      fun he => K.made_mono hx (h.made t a (htakes a he))
  · rcases K.spends hx with he | ⟨a, ha, he⟩
    · exact he ▸ h.nodup
    · rw [he]
      refine List.nodup_append.mpr ⟨h.nodup, List.nodup_singleton a, fun b hb a' ha' hba => ?_⟩
      rw [hba, List.mem_singleton.mp ha'] at hb
      exact h.unspent t a (htakes a ha) hb

/-! ## Runs -/

section
variable {T : Tasks Op Ans ε σ C α}

/-- What every thread in a call still does, it can do with the tokens it holds. -/
def Inv (K : Tokens exec τ) (c : Config Op Ans ε σ α) : Prop :=
  ∃ held : Nat → Set τ, K.Held held c.shared ∧ ∀ t p, c.pool t = some p → K.Frugal p (held t)

theorem inv_quiet {s : σ} (h : K.spent s = []) : K.Inv (.quiet s : Config Op Ans ε σ α) :=
  ⟨fun _ => ∅, ⟨nofun, nofun, nofun, fun a ha => (by rw [Config.quiet, h] at ha; cases ha),
    (by rw [Config.quiet, h]; exact .nil)⟩, nofun⟩

theorem act (hbody : ∀ call, K.Frugal (T.body call) ∅) (hmade : ∀ t call s, K.made (T.enter t call s) = K.made s)
    (hspent : ∀ t call s, K.spent (T.enter t call s) = K.spent s) {c c' : Config Op Ans ε σ α} {a : Action C χ}
    (h : K.Inv c) (ha : Core.act exec T c a = some c') : K.Inv c' := by
  obtain ⟨held, hheld, hfrugal⟩ := h
  cases act_acts ha with
  | @start t call hnone =>
    refine ⟨held, ⟨hheld.apart, ?_, ?_, ?_, ?_⟩, fun u p hp => ?_⟩
    · rw [hmade]; exact hheld.made
    · rw [hspent]; exact hheld.unspent
    · rw [hspent, hmade]; exact hheld.spent_made
    · rw [hspent]; exact hheld.nodup
    · by_cases hu : u = t
      · subst hu
        cases (setAt_self _ _ _).symm.trans hp
        exact (hbody call).mono (Set.empty_subset _)
      · exact hfrugal u p ((setAt_of_ne _ _ hu).symm.trans hp)
  | @step t x o k r s hpool hx =>
    obtain ⟨htakes, hrest⟩ := hfrugal t _ hpool
    refine ⟨_, hheld.step htakes hx, fun u p hp => ?_⟩
    by_cases hu : u = t
    · subst hu
      cases (setAt_self _ _ _).symm.trans hp
      rw [setAt_self]
      exact hrest r
    · rw [setAt_of_ne _ _ hu]
      exact hfrugal u p ((setAt_of_ne _ _ hu).symm.trans hp)
  | @finish t r hpool =>
    refine ⟨held, hheld, fun u p hp => ?_⟩
    by_cases hu : u = t
    · subst hu
      cases (setAt_self _ _ _).symm.trans hp
    · exact hfrugal u p ((setAt_of_ne _ _ hu).symm.trans hp)

theorem run (hbody : ∀ call, K.Frugal (T.body call) ∅) (hmade : ∀ t call s, K.made (T.enter t call s) = K.made s)
    (hspent : ∀ t call s, K.spent (T.enter t call s) = K.spent s) :
    ∀ {as : List (Action C χ)} {c c' : Config Op Ans ε σ α}, K.Inv c → Core.run exec T c as = some c' → K.Inv c'
  | [], _, _, h, he => by cases he; exact h
  | a :: as, c, c', h, he => by
    obtain ⟨c₁, ha, he⟩ := act_of_run_cons he
    exact run hbody hmade hspent (act hbody hmade hspent h ha) he

end

end Tokens

end ModAspNet.Core
