import ModAspNet.Core.RelyGuarantee

/-!
# The calls threads are in

`RelyGuarantee` follows programs. Here the program of a thread is the rest of a
call, and the call is remembered with the state it was started in (`Calling`).

* `act_performing`: a thread performs only operations of its call.
* `Each.act_inv`: what each call promises of its own operations and of its end,
  beyond the specification all share, is kept by every action.
* `Follows.safe`: a part of a thread's program, followed through a run, meets
  its triple there.
-/
namespace ModAspNet.Core

variable {Op : Type} {Ans : Op → Type} {ε χ σ C α β γ : Type}

/-! ## Who is in which call -/

/-- The call each thread is in, if any, and the state it was started in. -/
abbrev Calling (C σ : Type) := Nat → Option (C × σ)

def Action.thread : Action C χ → Nat
  | .start t _ => t
  | .step t _ => t
  | .finish t => t

/-- After an action in state `s`. -/
def Calling.after (κ : Calling C σ) (s : σ) : Action C χ → Calling C σ
  | .start t c => setAt κ t (some (c, s))
  | .step _ _ => κ
  | .finish t => setAt κ t none

theorem Calling.after_of_ne (κ : Calling C σ) (s : σ) {a : Action C χ} {t : Nat} (h : t ≠ a.thread) :
    κ.after s a t = κ t := by
  cases a with
  | start t' c => exact setAt_of_ne _ _ h
  | step t' x => rfl
  | finish t' => exact setAt_of_ne _ _ h

section
variable (exec : Exec Op Ans ε χ σ) (T : Tasks Op Ans ε σ C α)

/-- After a run. -/
def calling (c : Config Op Ans ε σ α) (κ : Calling C σ) : List (Action C χ) → Calling C σ
  | [] => κ
  | a :: as =>
    match act exec T c a with
    | none => κ
    | some c' => calling c' (κ.after c.shared a) as

variable {exec T} {c c' : Config Op Ans ε σ α} {κ : Calling C σ} {a : Action C χ}

theorem calling_cons (ha : act exec T c a = some c') (as : List (Action C χ)) :
    calling exec T c κ (a :: as) = calling exec T c' (κ.after c.shared a) as := by
  rw [calling, ha]

theorem act_pool (ha : act exec T c a = some c') {t : Nat} (ht : t ≠ a.thread) : c'.pool t = c.pool t := by
  cases act_acts ha with
  | start h => exact setAt_of_ne _ _ ht
  | step h hx => exact setAt_of_ne _ _ ht
  | finish h => exact setAt_of_ne _ _ ht

/-- Every thread that runs is in a call, and all it may still perform are
operations of that call. -/
def Performing (may : C → Op → Prop) (κ : Calling C σ) (c : Config Op Ans ε σ α) : Prop :=
  ∀ t p, c.pool t = some p → ∃ call s, κ t = some (call, s) ∧ p.Performs (may call)

theorem act_performing {may : C → Op → Prop} (hbody : ∀ call, (T.body call).Performs (may call))
    (h : Performing may κ c) (ha : act exec T c a = some c') : Performing may (κ.after c.shared a) c' := by
  intro t p hp
  by_cases ht : t = a.thread
  · subst ht
    cases act_acts ha with
    | @start t call hnone =>
      cases (setAt_self _ _ _).symm.trans hp
      exact ⟨call, c.shared, setAt_self _ _ _, hbody call⟩
    | @step t x o k r s hpool hx =>
      cases (setAt_self _ _ _).symm.trans hp
      obtain ⟨call, s₀, hκ, hperf⟩ := h t _ hpool
      exact ⟨call, s₀, hκ, hperf.2 r⟩
    | @finish t r hpool => cases (setAt_self _ _ _).symm.trans hp
  · rw [act_pool ha ht] at hp
    rw [κ.after_of_ne _ ht]
    exact h t p hp

end

/-! ## What each call promises -/

namespace Spec
variable {exec : Exec Op Ans ε χ σ} {A : Assumption Op C χ σ} {S : Spec exec A} {T : Tasks Op Ans ε σ C α}
  {G : Nat → Op → σ → σ → Prop} {t : Nat}

/-- The specification with one more demand on each operation. -/
def also (S : Spec exec A) (G : Nat → Op → σ → σ → Prop) : Spec exec A :=
  { S with good := fun t o s s' => S.good t o s s' ∧ G t o s s' }

theorem StepOK.also {o : Op} {s s' : σ} (h : S.StepOK t o s s') (hG : G t o s s') : (S.also G).StepOK t o s s' :=
  ⟨h.inv, h.guar, h.good, hG⟩

theorem Safe.of_also {post : Except ε α → σ → Prop} :
    ∀ {p : Prog Op Ans ε α} {s : σ}, (S.also G).Safe t p post s → S.Safe t p post s
  | .ret _, _, h => h
  | .throw _, _, h => h
  | .call _ _, _, h => fun s' hi hr x r s'' he hm =>
    let ⟨hok, hk⟩ := h s' hi hr x r s'' he hm
    ⟨⟨hok.inv, hok.guar, hok.good.1⟩, hk.of_also⟩

/-- The specification that demands `G` of each operation, and no more. -/
def demanding (S : Spec exec A) (G : Nat → Op → σ → σ → Prop) : Spec exec A :=
  { S with good := G }

/-- What demands more is met. -/
theorem Safe.relax (hG : ∀ t o s s', S.inv s → S.good t o s s' → G t o s s') {post : Except ε α → σ → Prop} :
    ∀ {p : Prog Op Ans ε α} {s : σ}, S.Safe t p post s → (S.demanding G).Safe t p post s
  | .ret _, _, h => h
  | .throw _, _, h => h
  | .call _ _, _, h => fun s' hi hr x r s'' he hm =>
    let ⟨hok, hk⟩ := h s' hi hr x r s'' he hm
    ⟨⟨hok.inv, hok.guar, hG _ _ _ _ hi hok.good⟩, hk.relax hG⟩

theorem Triple.relax (hG : ∀ t o s s', S.inv s → S.good t o s s' → G t o s s') {P : σ → Prop}
    {p : Prog Op Ans ε α} {Q : Except ε α → σ → Prop} (h : S.Triple t P p Q) : (S.demanding G).Triple t P p Q :=
  fun s hi hp => (h s hi hp).relax hG

/-- `Calls`, where moreover each operation of a call started in state `s₀` is
`good call s₀`, and `post call s₀` holds at the end of it. -/
structure Each (S : Spec exec A) (T : Tasks Op Ans ε σ C α) where
  idle : Nat → σ → Prop
  stable : ∀ t, S.Stable t (idle t)
  good : C → σ → Nat → Op → σ → σ → Prop
  post : C → σ → Nat → Except ε α → σ → Prop
  starts : ∀ t c s, S.inv s → idle t s → A.call c s → S.inv (T.enter t c s) ∧
    (∀ t', t' ≠ t → S.rely t' s (T.enter t c s)) ∧
    (S.also (good c s)).Safe t (T.body c) (fun r s' => idle t s' ∧ post c s t r s') (T.enter t c s)

namespace Each
variable (E : S.Each T)

def calls : S.Calls T where
  idle := E.idle
  stable := E.stable
  starts t c s hi hidle hc :=
    let ⟨hi', hguar, hsafe⟩ := E.starts t c s hi hidle hc
    ⟨hi', hguar, hsafe.of_also.conseq fun _ _ _ h => h.1⟩

/-- Every thread is safe where it is, and as safe as its call promises. -/
structure Inv (κ : Calling C σ) (c : Config Op Ans ε σ α) : Prop where
  base : E.calls.Inv c
  each : ∀ t p, c.pool t = some p → ∃ call s₀, κ t = some (call, s₀) ∧
    (S.also (E.good call s₀)).Safe t p (fun r s => E.idle t s ∧ E.post call s₀ t r s) c.shared

end Each

/-- The other threads see an action as `rely` says. -/
theorem Calls.act_rely (K : S.Calls T) {c c' : Config Op Ans ε σ α} {a : Action C χ} (h : K.Inv c)
    (hp : Permits A c a) (ha : act exec T c a = some c') (ht : t ≠ a.thread) : S.rely t c.shared c'.shared := by
  cases act_acts ha with
  | @start t' call hnone => exact (K.starts t' call c.shared h.inv (h.idle t' hnone) hp).2.1 t ht
  | @step t' x o k r s hpool hx =>
    simp only [Permits, hpool] at hp
    exact (h.safe t' _ hpool c.shared h.inv (S.refl t' _) x r s hx hp).1.guar t ht
  | finish hpool => exact S.refl t _

theorem Each.inv_quiet (E : S.Each T) {s : σ} (hi : S.inv s) (hidle : ∀ t, E.idle t s) :
    E.Inv (fun _ => none) (Config.quiet s) :=
  ⟨E.calls.inv_quiet hi hidle, fun _ _ h => by cases h⟩

theorem Each.act_inv (E : S.Each T) {κ : Calling C σ} {c c' : Config Op Ans ε σ α} {a : Action C χ}
    (h : E.Inv κ c) (hp : Permits A c a) (ha : act exec T c a = some c') : E.Inv (κ.after c.shared a) c' ∧
      ∀ call s₀, κ a.thread = some (call, s₀) → (S.also (E.good call s₀)).Good c c' a := by
  refine ⟨⟨(E.calls.act_inv h.base hp ha).1, fun t p hpool' => ?_⟩, fun call s₀ hκ => ?_⟩
  · by_cases ht : t = a.thread
    · subst ht
      cases act_acts ha with
      | @start t call hnone =>
        cases (setAt_self _ _ _).symm.trans hpool'
        exact ⟨call, c.shared, setAt_self _ _ _, (E.starts t call c.shared h.base.inv (h.base.idle t hnone) hp).2.2⟩
      | @step t x o k r s hpool hx =>
        cases (setAt_self _ _ _).symm.trans hpool'
        simp only [Permits, hpool] at hp
        obtain ⟨call, s₀, hκ, hsafe⟩ := h.each t _ hpool
        exact ⟨call, s₀, hκ, (hsafe c.shared h.base.inv (S.refl t _) x r s hx hp).2⟩
      | @finish t r hpool => cases (setAt_self _ _ _).symm.trans hpool'
    · rw [act_pool ha ht] at hpool'
      obtain ⟨call, s₀, hκ, hsafe⟩ := h.each t p hpool'
      refine ⟨call, s₀, by rw [κ.after_of_ne _ ht, hκ], ?_⟩
      exact Safe.mono (S := S.also _) hsafe (E.calls.act_rely h.base hp ha ht)
  · cases act_acts ha with
    | start hnone => trivial
    | @step t x o k r s hpool hx =>
      obtain ⟨call', s₀', hκ', hsafe⟩ := h.each t _ hpool
      cases hκ.symm.trans hκ'
      simp only [Permits, hpool] at hp
      simp only [Good, hpool]
      exact (hsafe c.shared h.base.inv (S.refl t _) x r s hx hp).1.good
    | finish hpool => trivial

/-- How a thread that is at the end of its call has ended it. -/
theorem Each.ended (E : S.Each T) {κ : Calling C σ} {c : Config Op Ans ε σ α} (h : E.Inv κ c) {r : Except ε α}
    (hpool : c.pool t = some (.ended r)) {call : C} {s₀ : σ} (hκ : κ t = some (call, s₀)) :
    E.idle t c.shared ∧ E.post call s₀ t r c.shared := by
  obtain ⟨call', s₀', hκ', hsafe⟩ := h.each t _ hpool
  cases hκ.symm.trans hκ'
  exact safe_ended.mp hsafe c.shared h.base.inv (S.refl t _)

end Spec

/-! ## A part of a program -/

/-- The program is run first, in whatever surrounds it. -/
def Context (E : Prog Op Ans ε γ → Prog Op Ans ε α) : Prop := ∀ o k, E (.call o k) = .call o fun r => E (k r)

section
variable (exec : Exec Op Ans ε χ σ) (T : Tasks Op Ans ε σ C α)

/-- Thread `t`, at `q` in its program, comes to `q'` by a run in which the
others act as well. -/
inductive Follows (t : Nat) : Config Op Ans ε σ α → Prog Op Ans ε γ → List (Action C χ) →
    Config Op Ans ε σ α → Prog Op Ans ε γ → Prop
  | here (c q) : Follows t c q [] c q
  | own {c c₁ c' o k x r as q'} (ha : act exec T c (.step t x) = some c₁)
      (hx : exec t o x c.shared = some (r, c₁.shared)) (h : Follows t c₁ (k r) as c' q') :
      Follows t c (.call o k) (.step t x :: as) c' q'
  | other {c c₁ c' q a as q'} (hne : t ≠ a.thread) (ha : act exec T c a = some c₁)
      (h : Follows t c₁ q as c' q') : Follows t c q (a :: as) c' q'

end

/-- What is safe before is safe after. -/
theorem Follows.safe {exec : Exec Op Ans ε χ σ} {A : Assumption Op C χ σ} {S : Spec exec A}
    {T : Tasks Op Ans ε σ C α} (K : S.Calls T) {t : Nat} {E : Prog Op Ans ε γ → Prog Op Ans ε α} (hE : Context E)
    {post : Except ε γ → σ → Prop} {c c' : Config Op Ans ε σ α} {q q' : Prog Op Ans ε γ} {as : List (Action C χ)}
    (h : Follows exec T t c q as c' q') : K.Inv c → Meets exec T A c as → c.pool t = some (E q) →
    S.Safe t q post c.shared → S.inv c'.shared ∧ S.Safe t q' post c'.shared := by
  induction h with
  | here c q => exact fun hi _ _ hs => ⟨hi.inv, hs⟩
  | @own c c₁ c' o k x r as q' ha hx h ih =>
    rintro hi ⟨hp, hm⟩ hpool hs
    rw [ha] at hm
    have hpool' := hpool
    rw [hE] at hpool'
    cases act_acts ha with
    | @step _ _ o' k' r' s hpool'' hx' =>
      cases hpool''.symm.trans hpool'
      cases hx'.symm.trans hx
      refine ih (K.act_inv hi hp ha).1 hm (setAt_self _ _ _) ?_
      simp only [Permits, hpool'] at hp
      exact (hs c.shared hi.inv (S.refl t _) x r s hx hp).2
  | @other c c₁ c' q a as q' hne ha h ih =>
    rintro hi ⟨hp, hm⟩ hpool hs
    rw [ha] at hm
    refine ih (K.act_inv hi hp ha).1 hm (by rw [act_pool ha hne, hpool]) ?_
    exact hs.mono (K.act_rely hi hp ha hne)

end ModAspNet.Core
