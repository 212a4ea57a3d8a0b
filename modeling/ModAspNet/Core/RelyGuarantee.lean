import ModAspNet.Core.Prog

/-!
# Rely and guarantee

Threads run programs (`Prog`) on one shared state, an atomic operation at a
time in any order, each starting a new call when it has finished its last.

An `Assumption` says which steps a run may take. A `Spec` under it states what
every operation may count on (`inv`: the invariant of the shared state;
`rely t`: what the operations of the other threads do to it, as seen by thread
`t`) and what it must do: keep `inv`, stay within `rely t'` of every other
thread, and be `good`. `Safe` follows a program under interference, `Triple` is
`Safe` from a precondition, with one rule for each way programs are built.

`Outline` gives what a thread knows at each point of a program's control flow.

* `act_inv`: one step of a configuration in which every thread is safe is good
  and leaves every thread safe.
* `run_inv`, `run_along`: so it is for every run whose steps are as assumed.
* `solo_inv`, `solo_keeps`: a program run alone meets its triple, and keeps what
  every operation that does as specified keeps.
-/
namespace ModAspNet.Core

variable {Op : Type} {Ans : Op → Type} {ε χ σ C α β : Type}

/-! ## Threads -/

/-- The calls threads make: the program of a call, and what starting one does
to the state. -/
structure Tasks (Op : Type) (Ans : Op → Type) (ε σ C α : Type) where
  enter : Nat → C → σ → σ
  body : C → Prog Op Ans ε α

/-- The shared state, and for each thread the rest of the call it is in. -/
structure Config (Op : Type) (Ans : Op → Type) (ε σ α : Type) where
  shared : σ
  pool : Nat → Option (Prog Op Ans ε α)

inductive Action (C χ : Type) where
  | start (t : Nat) (c : C)
  | step (t : Nat) (x : χ)
  | finish (t : Nat)

def setAt {γ : Type} (f : Nat → γ) (t : Nat) (v : γ) : Nat → γ := fun t' => if t' = t then v else f t'

@[simp] theorem setAt_self {γ : Type} (f : Nat → γ) (t : Nat) (v : γ) : setAt f t v t = v := if_pos rfl

theorem setAt_of_ne {γ : Type} (f : Nat → γ) {t t' : Nat} (v : γ) (h : t' ≠ t) : setAt f t v t' = f t' :=
  if_neg h

/-- Which calls may be started and which operations may happen, by the state
they happen in. -/
structure Assumption (Op C χ σ : Type) where
  call : C → σ → Prop
  step : Nat → Op → χ → σ → Prop

/-- Nothing is assumed. -/
def Assumption.anything : Assumption Op C χ σ := ⟨fun _ _ => True, fun _ _ _ _ => True⟩

/-- No thread is in a call. -/
def Config.quiet (s : σ) : Config Op Ans ε σ α := ⟨s, fun _ => none⟩

section
variable (exec : Exec Op Ans ε χ σ) (T : Tasks Op Ans ε σ C α)

def act (c : Config Op Ans ε σ α) : Action C χ → Option (Config Op Ans ε σ α)
  | .start t call =>
    match c.pool t with
    | none => some ⟨T.enter t call c.shared, setAt c.pool t (some (T.body call))⟩
    | some _ => none
  | .step t x =>
    match c.pool t with
    | some (.call o k) => (exec t o x c.shared).map fun (r, s) => ⟨s, setAt c.pool t (some (k r))⟩
    | _ => none
  | .finish t =>
    match c.pool t with
    | some (.ret _) => some ⟨c.shared, setAt c.pool t none⟩
    | some (.throw _) => some ⟨c.shared, setAt c.pool t none⟩
    | _ => none

/-- A run: a list of actions, each possible where it comes. -/
def run (c : Config Op Ans ε σ α) : List (Action C χ) → Option (Config Op Ans ε σ α)
  | [] => some c
  | a :: as =>
    match act exec T c a with
    | none => none
    | some c' => run c' as

/-- What each kind of action does. -/
inductive Acts (c : Config Op Ans ε σ α) : Action C χ → Config Op Ans ε σ α → Prop
  | start {t call} (h : c.pool t = none) :
      Acts c (.start t call) ⟨T.enter t call c.shared, setAt c.pool t (some (T.body call))⟩
  | step {t x o k r s} (h : c.pool t = some (.call o k)) (hx : exec t o x c.shared = some (r, s)) :
      Acts c (.step t x) ⟨s, setAt c.pool t (some (k r))⟩
  | finish {t r} (h : c.pool t = some (.ended r)) : Acts c (.finish t) ⟨c.shared, setAt c.pool t none⟩

variable (A : Assumption Op C χ σ)

/-- The step is as assumed. -/
def Permits (c : Config Op Ans ε σ α) : Action C χ → Prop
  | .start _ call => A.call call c.shared
  | .step t x =>
    match c.pool t with
    | some (.call o _) => A.step t o x c.shared
    | _ => True
  | .finish _ => True

/-- Every step of the run is as assumed. -/
def Meets (c : Config Op Ans ε σ α) : List (Action C χ) → Prop
  | [] => True
  | a :: as => Permits A c a ∧
    match act exec T c a with
    | none => True
    | some c' => Meets c' as

instance [∀ c s, Decidable (A.call c s)] [∀ t o x s, Decidable (A.step t o x s)] (c : Config Op Ans ε σ α)
    (a : Action C χ) : Decidable (Permits A c a) :=
  match a with
  | .start _ call => inferInstanceAs (Decidable (A.call call c.shared))
  | .step t x =>
    match h : c.pool t with
    | some (.call o _) => decidable_of_iff (A.step t o x c.shared) (by simp [Permits, h])
    | some (.ret _) => isTrue (by simp [Permits, h])
    | some (.throw _) => isTrue (by simp [Permits, h])
    | none => isTrue (by simp [Permits, h])
  | .finish _ => isTrue trivial

instance decidableMeets [∀ c s, Decidable (A.call c s)] [∀ t o x s, Decidable (A.step t o x s)] :
    (as : List (Action C χ)) → (c : Config Op Ans ε σ α) → Decidable (Meets exec T A c as)
  | [], _ => isTrue trivial
  | a :: as, c =>
    match h : act exec T c a with
    | none => decidable_of_iff (Permits A c a) (by simp [Meets, h])
    | some c' =>
      have := decidableMeets as c'
      decidable_of_iff (Permits A c a ∧ Meets exec T A c' as) (by simp [Meets, h])

/-- Every step of the run relates the configurations around it. -/
def Along (P : Config Op Ans ε σ α → Config Op Ans ε σ α → Prop) (c : Config Op Ans ε σ α) :
    List (Action C χ) → Prop
  | [] => True
  | a :: as =>
    match act exec T c a with
    | none => True
    | some c' => P c c' ∧ Along P c' as

instance decidableAlong (P : Config Op Ans ε σ α → Config Op Ans ε σ α → Prop) [∀ c c', Decidable (P c c')] :
    (as : List (Action C χ)) → (c : Config Op Ans ε σ α) → Decidable (Along exec T P c as)
  | [], _ => isTrue trivial
  | a :: as, c =>
    match h : act exec T c a with
    | none => isTrue (by simp [Along, h])
    | some c' =>
      have := decidableAlong P as c'
      decidable_of_iff (P c c' ∧ Along exec T P c' as) (by simp [Along, h])

variable {exec T A}

theorem act_acts {c c' : Config Op Ans ε σ α} {a : Action C χ} (h : act exec T c a = some c') :
    Acts exec T c a c' := by
  cases a with
  | start t call =>
    simp only [act] at h
    split at h
    · rename_i hnone; cases h; exact .start hnone
    · cases h
  | step t x =>
    simp only [act] at h
    split at h
    · rename_i o k hpool
      obtain ⟨⟨r, s⟩, hx, rfl⟩ := Option.map_eq_some_iff.mp h
      exact .step hpool hx
    · cases h
  | finish t =>
    simp only [act] at h
    split at h
    · rename_i a hpool; cases h; exact .finish (r := .ok a) hpool
    · rename_i e hpool; cases h; exact .finish (r := .error e) hpool
    · cases h

/-- Under weaker assumptions. -/
theorem Meets.mono {B : Assumption Op C χ σ}
    (hAB : ∀ (c : Config Op Ans ε σ α) (a : Action C χ), Permits A c a → Permits B c a) :
    ∀ {as : List (Action C χ)} {c : Config Op Ans ε σ α}, Meets exec T A c as → Meets exec T B c as
  | [], _, _ => trivial
  | a :: as, c, h => by
    obtain ⟨ha, h⟩ := h
    refine ⟨hAB c a ha, ?_⟩
    split
    · trivial
    · rename_i c' hc
      rw [hc] at h
      exact h.mono hAB

theorem meets_anything : ∀ (as : List (Action C χ)) (c : Config Op Ans ε σ α), Meets exec T .anything c as
  | [], _ => trivial
  | a :: as, c => by
    refine ⟨?_, ?_⟩
    · cases a with
      | start t call => trivial
      | step t x => simp only [Permits]; split <;> trivial
      | finish t => trivial
    · split
      · trivial
      · exact meets_anything as _

theorem run_append : ∀ (as bs : List (Action C χ)) (c : Config Op Ans ε σ α),
    run exec T c (as ++ bs) = (run exec T c as).bind fun c' => run exec T c' bs
  | [], _, _ => rfl
  | a :: as, bs, c => by
    rw [List.cons_append, run, run]
    split
    · rfl
    · exact run_append as bs _

/-- A run of one action more takes the action first. -/
theorem act_of_run_cons {a : Action C χ} {as : List (Action C χ)} {c c' : Config Op Ans ε σ α}
    (h : run exec T c (a :: as) = some c') : ∃ c₁, act exec T c a = some c₁ ∧ run exec T c₁ as = some c' := by
  unfold run at h
  split at h
  · cases h
  · exact ⟨_, ‹_›, h⟩

/-- … and one more at its end last. -/
theorem act_of_run_snoc {as : List (Action C χ)} {a : Action C χ} {c c' : Config Op Ans ε σ α}
    (h : run exec T c (as ++ [a]) = some c') : ∃ c₁, run exec T c as = some c₁ ∧ act exec T c₁ a = some c' := by
  rw [run_append] at h
  obtain ⟨c₁, hrun, h⟩ := Option.bind_eq_some_iff.mp h
  obtain ⟨c₂, ha, h⟩ := act_of_run_cons h
  cases h
  exact ⟨c₁, hrun, ha⟩

end

/-! ## Specifications -/

structure Spec (exec : Exec Op Ans ε χ σ) (A : Assumption Op C χ σ) where
  inv : σ → Prop
  rely : Nat → σ → σ → Prop
  good : Nat → Op → σ → σ → Prop
  refl : ∀ t s, rely t s s
  trans : ∀ t s s' s'', rely t s s' → rely t s' s'' → rely t s s''

namespace Spec
variable {exec : Exec Op Ans ε χ σ} {A : Assumption Op C χ σ} (S : Spec exec A)

/-- The obligations of one operation. -/
structure StepOK (t : Nat) (o : Op) (s s' : σ) : Prop where
  inv : S.inv s'
  guar : ∀ t', t' ≠ t → S.rely t' s s'
  good : S.good t o s s'

/-- Thread `t` at program `p` in state `s`: whatever the others do within
`rely t`, every operation of `p` meets its obligations, and `post` holds at the
end and goes on to hold. -/
def Safe (t : Nat) : Prog Op Ans ε α → (Except ε α → σ → Prop) → σ → Prop
  | .ret a, post, s => ∀ s', S.inv s' → S.rely t s s' → post (.ok a) s'
  | .throw e, post, s => ∀ s', S.inv s' → S.rely t s s' → post (.error e) s'
  | .call o k, post, s => ∀ s', S.inv s' → S.rely t s s' → ∀ x r s'', exec t o x s' = some (r, s'') →
      A.step t o x s' → S.StepOK t o s' s'' ∧ Safe t (k r) post s''

variable {S}

theorem safe_ended {t : Nat} {r : Except ε α} {post : Except ε α → σ → Prop} {s : σ} :
    S.Safe t (.ended r) post s ↔ ∀ s', S.inv s' → S.rely t s s' → post r s' := by
  cases r <;> exact Iff.rfl

/-- Safety outlasts the steps of the others. -/
theorem Safe.mono {t : Nat} {p : Prog Op Ans ε α} {post : Except ε α → σ → Prop} {s s' : σ}
    (h : S.Safe t p post s) (hr : S.rely t s s') : S.Safe t p post s' := by
  cases p with
  | ret a => exact fun s'' hi hr' => h s'' hi (S.trans t _ _ _ hr hr')
  | throw e => exact fun s'' hi hr' => h s'' hi (S.trans t _ _ _ hr hr')
  | call o k => exact fun s'' hi hr' => h s'' hi (S.trans t _ _ _ hr hr')

theorem Safe.conseq {t : Nat} {post post' : Except ε α → σ → Prop} (hpost : ∀ r s, S.inv s → post r s → post' r s) :
    ∀ {p : Prog Op Ans ε α} {s : σ}, S.Safe t p post s → S.Safe t p post' s
  | .ret _, _, h => fun s' hi hr => hpost _ s' hi (h s' hi hr)
  | .throw _, _, h => fun s' hi hr => hpost _ s' hi (h s' hi hr)
  | .call _ _, _, h => fun s' hi hr x r s'' he hm =>
    let ⟨hok, hk⟩ := h s' hi hr x r s'' he hm
    ⟨hok, hk.conseq hpost⟩

theorem Safe.bind {t : Nat} {f : α → Prog Op Ans ε β} {post : Except ε α → σ → Prop}
    {post' : Except ε β → σ → Prop} (hf : ∀ a s, S.inv s → post (.ok a) s → S.Safe t (f a) post' s)
    (herr : ∀ e s, S.inv s → post (.error e) s → post' (.error e) s) :
    ∀ {p : Prog Op Ans ε α} {s : σ}, S.inv s → S.Safe t p post s → S.Safe t (p.bind f) post' s
  | .ret a, s, hi, h => hf a s hi (h s hi (S.refl t s))
  | .throw e, _, _, h => fun s' hi hr => herr e s' hi (h s' hi hr)
  | .call _ _, _, _, h => fun s' hi hr x r s'' he hm =>
    let ⟨hok, hk⟩ := h s' hi hr x r s'' he hm
    ⟨hok, hk.bind hf herr hok.inv⟩

theorem Safe.attempt {t : Nat} {post : Except ε α → σ → Prop} {post' : Except ε (Except ε α) → σ → Prop}
    (hpost : ∀ r s, S.inv s → post r s → post' (.ok r) s) :
    ∀ {p : Prog Op Ans ε α} {s : σ}, S.Safe t p post s → S.Safe t p.attempt post' s
  | .ret _, _, h => fun s' hi hr => hpost _ s' hi (h s' hi hr)
  | .throw _, _, h => fun s' hi hr => hpost _ s' hi (h s' hi hr)
  | .call _ _, _, h => fun s' hi hr x r s'' he hm =>
    let ⟨hok, hk⟩ := h s' hi hr x r s'' he hm
    ⟨hok, hk.attempt hpost⟩

theorem Safe.frame {t : Nat} {post : Except ε α → σ → Prop} {ok : Op → Prop} {F : σ → Prop}
    (hs : ∀ s s', S.inv s → S.inv s' → F s → S.rely t s s' → F s')
    (hstep : ∀ o, ok o → ∀ s x r s', F s → exec t o x s = some (r, s') → F s') :
    ∀ {p : Prog Op Ans ε α} {s : σ}, S.inv s → F s → p.Performs ok → S.Safe t p post s →
      S.Safe t p (fun r s => post r s ∧ F s) s
  | .ret _, _, hi, hf, _, h => fun s' hi' hr => ⟨h s' hi' hr, hs _ s' hi hi' hf hr⟩
  | .throw _, _, hi, hf, _, h => fun s' hi' hr => ⟨h s' hi' hr, hs _ s' hi hi' hf hr⟩
  | .call o _, _, hi, hf, hp, h => fun s' hi' hr x r s'' he hm =>
    let ⟨hok, hk⟩ := h s' hi' hr x r s'' he hm
    ⟨hok, hk.frame hs hstep hok.inv (hstep o hp.1 s' x r s'' (hs _ s' hi hi' hf hr) he) (hp.2 r)⟩

/-! ## Triples -/

variable (S)

/-- From any state with `pre`, thread `t` runs `p` safely to `post`. -/
def Triple (t : Nat) (pre : σ → Prop) (p : Prog Op Ans ε α) (post : Except ε α → σ → Prop) : Prop :=
  ∀ s, S.inv s → pre s → S.Safe t p post s

/-- The other threads do not falsify `P`. -/
def Stable (t : Nat) (P : σ → Prop) : Prop := ∀ s s', S.inv s → S.inv s' → P s → S.rely t s s' → P s'

variable {S} {t : Nat} {P P' : σ → Prop}

theorem Stable.and (h : S.Stable t P) (h' : S.Stable t P') : S.Stable t fun s => P s ∧ P' s :=
  fun s s' hi hi' hp hr => ⟨h s s' hi hi' hp.1 hr, h' s s' hi hi' hp.2 hr⟩

theorem Stable.const (φ : Prop) : S.Stable t fun _ => φ := fun _ _ _ _ hp _ => hp

namespace Triple
variable {Q Q' : Except ε α → σ → Prop}

theorem pure {a : α} (hs : S.Stable t P) (h : ∀ s, S.inv s → P s → Q (.ok a) s) :
    S.Triple t P (pure a) Q :=
  fun s hi hp s' hi' hr => h s' hi' (hs s s' hi hi' hp hr)

theorem throw {e : ε} (hs : S.Stable t P) (h : ∀ s, S.inv s → P s → Q (.error e) s) :
    S.Triple t P (.throw e) Q :=
  fun s hi hp s' hi' hr => h s' hi' (hs s s' hi hi' hp hr)

/-- One operation, then the rest of the program. -/
theorem call {o : Op} {k : Except ε (Ans o) → Prog Op Ans ε α} {R : Except ε (Ans o) → σ → Prop}
    (hs : S.Stable t P)
    (hstep : ∀ s x r s', S.inv s → P s → A.step t o x s → exec t o x s = some (r, s') →
      S.StepOK t o s s' ∧ R r s')
    (hk : ∀ r, S.Triple t (R r) (k r) Q) : S.Triple t P (.call o k) Q :=
  fun s hi hp s' hi' hr x r s'' he hm =>
    let ⟨hok, hR⟩ := hstep s' x r s'' hi' (hs s s' hi hi' hp hr) hm he
    ⟨hok, hk r s'' hok.inv hR⟩

/-- One operation, whose outcome is the result. -/
theorem perform {o : Op} {R : Except ε (Ans o) → σ → Prop} (hs : S.Stable t P) (hR : ∀ r, S.Stable t (R r))
    (hstep : ∀ s x r s', S.inv s → P s → A.step t o x s → exec t o x s = some (r, s') →
      S.StepOK t o s s' ∧ R r s') : S.Triple t P (Prog.perform o) R := by
  refine call hs hstep fun r => ?_
  cases r with
  | ok a => exact Triple.pure (hR _) fun _ _ h => h
  | error e => exact throw (hR _) fun _ _ h => h

theorem conseq {p : Prog Op Ans ε α} (h : S.Triple t P p Q) (hpre : ∀ s, S.inv s → P' s → P s)
    (hpost : ∀ r s, S.inv s → Q r s → Q' r s) : S.Triple t P' p Q' :=
  fun s hi hp => (h s hi (hpre s hi hp)).conseq hpost

theorem strengthen {p : Prog Op Ans ε α} (h : S.Triple t P p Q) (hpre : ∀ s, S.inv s → P' s → P s) :
    S.Triple t P' p Q :=
  h.conseq hpre fun _ _ _ hq => hq

theorem weaken {p : Prog Op Ans ε α} (h : S.Triple t P p Q) (hpost : ∀ r s, S.inv s → Q r s → Q' r s) :
    S.Triple t P p Q' :=
  h.conseq (fun _ _ hp => hp) hpost

theorem bind {p : Prog Op Ans ε α} {f : α → Prog Op Ans ε β} {R : α → σ → Prop} {Q : Except ε β → σ → Prop}
    (h : S.Triple t P p fun r s => match r with
      | .ok a => R a s
      | .error e => Q (.error e) s)
    (hf : ∀ a, S.Triple t (R a) (f a) Q) : S.Triple t P (p >>= f) Q :=
  fun s hi hp => (h s hi hp).bind (fun a s' hi' hR => hf a s' hi' hR) (fun _ _ _ hq => hq) hi

/-- A first part that only keeps the precondition. -/
theorem seq {p : Prog Op Ans ε α} {f : α → Prog Op Ans ε β} {Q : Except ε β → σ → Prop}
    (h : S.Triple t P p fun _ => P) (hf : ∀ a, S.Triple t P (f a) Q)
    (herr : ∀ e s, S.inv s → P s → Q (.error e) s) : S.Triple t P (p >>= f) Q :=
  bind (R := fun _ => P) (h.weaken fun r s hi hp => by
    cases r with
    | ok a => exact hp
    | error e => exact herr e s hi hp) hf

theorem attempt {p : Prog Op Ans ε α} {Q : Except ε (Except ε α) → σ → Prop}
    (h : S.Triple t P p fun r s => Q (.ok r) s) : S.Triple t P p.attempt Q :=
  fun s hi hp => (h s hi hp).attempt fun _ _ _ hq => hq

theorem tryCatch {p : Prog Op Ans ε α} {handler : ε → Prog Op Ans ε α} {H : ε → σ → Prop}
    {Q : Except ε α → σ → Prop} (hQ : ∀ a, S.Stable t (Q (.ok a)))
    (h : S.Triple t P p fun r s => match r with
      | .ok a => Q (.ok a) s
      | .error e => H e s)
    (hh : ∀ e, S.Triple t (H e) (handler e) Q) : S.Triple t P (p.tryCatch handler) Q := by
  refine bind (R := fun r s => match r with
    | .ok a => Q (.ok a) s
    | .error e => H e s) (attempt h) fun r => ?_
  cases r with
  | ok a => exact Triple.pure (hQ a) fun _ _ hq => hq
  | error e => exact hh e

/-- A fact that the precondition implies. -/
theorem of_fact {φ : Prop} {p : Prog Op Ans ε α} (hφ : ∀ s, S.inv s → P s → φ) (h : φ → S.Triple t P p Q) :
    S.Triple t P p Q :=
  fun s hi hp => h (hφ s hi hp) s hi hp

/-- A program all of whose operations keep a stable `P`. -/
theorem of_performs {ok : Op → Prop} (hs : S.Stable t P)
    (hstep : ∀ o, ok o → ∀ s x r s', S.inv s → P s → A.step t o x s → exec t o x s = some (r, s') →
      S.StepOK t o s s' ∧ P s') :
    ∀ {p : Prog Op Ans ε α}, p.Performs ok → S.Triple t P p fun _ => P
  | .ret _, _ => Triple.pure hs fun _ _ hp => hp
  | .throw _, _ => throw hs fun _ _ hp => hp
  | .call o _, h => call hs (hstep o h.1) fun r => of_performs hs hstep (h.2 r)

/-- What no operation of the program and no other thread falsifies is kept
beside whatever the program does. -/
theorem frame {ok : Op → Prop} {F : σ → Prop} (hs : S.Stable t F)
    (hstep : ∀ o, ok o → ∀ s x r s', F s → exec t o x s = some (r, s') → F s') {p : Prog Op Ans ε α}
    (hp : p.Performs ok) (h : S.Triple t P p Q) : S.Triple t (fun s => P s ∧ F s) p fun r s => Q r s ∧ F s :=
  fun s hi hpre => (h s hi hpre.1).frame hs hstep hi hpre.2 hp

end Triple

/-! ## Proof outlines -/

end Spec

/-- The control flow of a program between the points of an outline: the
operation performed at a point with where each outcome leads, and the points
that are passed without an operation. -/
structure Flow (Op : Type) (Ans : Op → Type) (ε π : Type) where
  edge : π → (o : Op) → (Except ε (Ans o) → π) → Prop
  silent : π → π → Prop

namespace Spec
variable {exec : Exec Op Ans ε χ σ} {A : Assumption Op C χ σ} {π : Type}

/-- What thread `t` knows at each point, with one obligation for each edge. -/
structure Outline (S : Spec exec A) (t : Nat) (F : Flow Op Ans ε π) where
  knows : π → σ → Prop
  stable : ∀ p, S.Stable t (knows p)
  step : ∀ {p o next}, F.edge p o next → ∀ s x r s', S.inv s → knows p s → A.step t o x s →
    exec t o x s = some (r, s') → S.StepOK t o s s' ∧ knows (next r) s'
  silent : ∀ {p q}, F.silent p q → ∀ s, S.inv s → knows p s → knows q s

namespace Outline
variable {S : Spec exec A} {t : Nat} {F : Flow Op Ans ε π} (O : S.Outline t F)

theorem perform {p : π} {o : Op} {next : Except ε (Ans o) → π} (h : F.edge p o next) :
    S.Triple t (O.knows p) (Prog.perform o) fun r => O.knows (next r) :=
  .perform (O.stable p) (fun r => O.stable (next r)) (O.step h)

/-- Nothing left to do at a point. -/
theorem skip (p : π) (a : α) : S.Triple t (O.knows p) (pure a) fun _ => O.knows p :=
  .pure (O.stable p) fun _ _ h => h

theorem skip_silent {p q : π} (h : F.silent p q) (a : α) : S.Triple t (O.knows p) (pure a) fun _ => O.knows q :=
  .pure (O.stable p) (O.silent h)

/-- The same annotation, of a part of the flow. -/
def restrict {F' : Flow Op Ans ε π} (hedge : ∀ {p o next}, F'.edge p o next → F.edge p o next)
    (hsilent : ∀ {p q}, F'.silent p q → F.silent p q) : S.Outline t F' where
  knows := O.knows
  stable := O.stable
  step h := O.step (hedge h)
  silent h := O.silent (hsilent h)

/-- An operation, and the rest from each point it leads to. -/
theorem bind {p : π} {o : Op} {next : Except ε (Ans o) → π} {f : Ans o → Prog Op Ans ε α}
    {Q : Except ε α → σ → Prop} (h : F.edge p o next)
    (hf : ∀ a, S.Triple t (O.knows (next (.ok a))) (f a) Q)
    (herr : ∀ e s, S.inv s → O.knows (next (.error e)) s → Q (.error e) s) :
    S.Triple t (O.knows p) (Prog.perform o >>= f) Q := by
  refine .bind (R := fun a => O.knows (next (.ok a))) ((O.perform h).weaken fun r s hi hs => ?_) hf
  cases r with
  | ok a => exact hs
  | error e => exact herr e s hi hs

end Outline

/-! ## A program alone -/

variable {S : Spec exec A}

/-- The choices of a solo run are as assumed. -/
def SoloMay (A : Assumption Op C χ σ) (exec : Exec Op Ans ε χ σ) (t : Nat) : Prog Op Ans ε α → List χ → σ → Prop
  | .call o k, x :: xs, s => A.step t o x s ∧ ∀ r s', exec t o x s = some (r, s') → SoloMay A exec t (k r) xs s'
  | _, _, _ => True

theorem soloMay_anything {t : Nat} : ∀ (p : Prog Op Ans ε α) (xs : List χ) (s : σ),
    SoloMay (.anything : Assumption Op C χ σ) exec t p xs s
  | .ret _, _, _ => trivial
  | .throw _, _, _ => trivial
  | .call _ _, [], _ => trivial
  | .call _ k, _ :: xs, _ => ⟨trivial, fun r s' _ => soloMay_anything (k r) xs s'⟩

theorem soloMay_of {t : Nat} (h : ∀ o x s, A.step t o x s) : ∀ (p : Prog Op Ans ε α) (xs : List χ) (s : σ),
    SoloMay A exec t p xs s
  | .ret _, _, _ => trivial
  | .throw _, _, _ => trivial
  | .call _ _, [], _ => trivial
  | .call o k, x :: xs, s => ⟨h o x s, fun r s' _ => soloMay_of h (k r) xs s'⟩

theorem solo_inv : ∀ {p : Prog Op Ans ε α} {post : Except ε α → σ → Prop} {xs : List χ} {s s' : σ} {r : Except ε α},
    S.inv s → S.Safe t p post s → SoloMay A exec t p xs s → p.solo exec t xs s = some (r, s') →
    S.inv s' ∧ post r s'
  | .ret _, _, _, s, _, _, hi, h, _, he => by cases he; exact ⟨hi, h s hi (S.refl t s)⟩
  | .throw _, _, _, s, _, _, hi, h, _, he => by cases he; exact ⟨hi, h s hi (S.refl t s)⟩
  | .call _ _, _, [], _, _, _, _, _, _, he => by cases he
  | .call o k, _, x :: xs, s, _, _, hi, h, hm, he => by
    unfold Prog.solo at he
    split at he
    · cases he
    · rename_i r s₁ hx
      obtain ⟨hok, hk⟩ := h s hi (S.refl t s) x r s₁ hx hm.1
      exact solo_inv hok.inv hk (hm.2 r s₁ hx) he

theorem solo_keeps {F : σ → Prop}
    (hF : ∀ o x s (r : Except ε (Ans o)) s', S.StepOK t o s s' → exec t o x s = some (r, s') → F s → F s') :
    ∀ {p : Prog Op Ans ε α} {post : Except ε α → σ → Prop} {xs : List χ} {s s' : σ} {r : Except ε α},
      S.inv s → S.Safe t p post s → SoloMay A exec t p xs s → p.solo exec t xs s = some (r, s') → F s → F s'
  | .ret _, _, _, _, _, _, _, _, _, he, hf => by cases he; exact hf
  | .throw _, _, _, _, _, _, _, _, _, he, hf => by cases he; exact hf
  | .call _ _, _, [], _, _, _, _, _, _, he, _ => by cases he
  | .call o k, _, x :: xs, s, _, _, hi, h, hm, he, hf => by
    unfold Prog.solo at he
    split at he
    · cases he
    · rename_i r s₁ hx
      obtain ⟨hok, hk⟩ := h s hi (S.refl t s) x r s₁ hx hm.1
      exact solo_keeps hF hok.inv hk (hm.2 r s₁ hx) he (hF o x s r s₁ hok hx hf)

/-! ## Runs -/

/-- What makes a specification one of the calls: what holds of a thread
between its calls, and that every call it may start is safe. -/
structure Calls (S : Spec exec A) (T : Tasks Op Ans ε σ C α) where
  idle : Nat → σ → Prop
  stable : ∀ t, S.Stable t (idle t)
  starts : ∀ t c s, S.inv s → idle t s → A.call c s → S.inv (T.enter t c s) ∧
    (∀ t', t' ≠ t → S.rely t' s (T.enter t c s)) ∧
    S.Safe t (T.body c) (fun _ => idle t) (T.enter t c s)

variable {T : Tasks Op Ans ε σ C α}

/-- Every thread is safe where it is. -/
structure Calls.Inv (K : S.Calls T) (c : Config Op Ans ε σ α) : Prop where
  inv : S.inv c.shared
  idle : ∀ t, c.pool t = none → K.idle t c.shared
  safe : ∀ t p, c.pool t = some p → S.Safe t p (fun _ => K.idle t) c.shared

theorem Calls.inv_quiet (K : S.Calls T) {s : σ} (hi : S.inv s) (hidle : ∀ t, K.idle t s) :
    K.Inv (Config.quiet s) :=
  ⟨hi, fun t _ => hidle t, fun _ _ h => by cases h⟩

/-- If the action was an operation, it was a good one. -/
def Good (S : Spec exec A) (c c' : Config Op Ans ε σ α) : Action C χ → Prop
  | .step t _ =>
    match c.pool t with
    | some (.call o _) => S.good t o c.shared c'.shared
    | _ => True
  | _ => True

/-- Thread `t` moved the state to `s` and is at `v` now. -/
theorem Calls.inv_setAt (K : S.Calls T) {c : Config Op Ans ε σ α} (h : K.Inv c) {t : Nat} {s : σ} (hi : S.inv s)
    (hguar : ∀ t', t' ≠ t → S.rely t' c.shared s) {v : Option (Prog Op Ans ε α)}
    (hidle : v = none → K.idle t s) (hsafe : ∀ p, v = some p → S.Safe t p (fun _ => K.idle t) s) :
    K.Inv ⟨s, setAt c.pool t v⟩ := by
  refine ⟨hi, fun t' ht' => ?_, fun t' p ht' => ?_⟩ <;> dsimp only at ht' ⊢ <;> by_cases he : t' = t
  · subst he; rw [setAt_self] at ht'; exact hidle ht'
  · rw [setAt_of_ne _ _ he] at ht'; exact K.stable t' _ _ h.inv hi (h.idle t' ht') (hguar t' he)
  · subst he; rw [setAt_self] at ht'; exact hsafe p ht'
  · rw [setAt_of_ne _ _ he] at ht'; exact (h.safe t' p ht').mono (hguar t' he)

theorem Calls.act_inv (K : S.Calls T) {c c' : Config Op Ans ε σ α} {a : Action C χ} (h : K.Inv c)
    (hp : Permits A c a) (ha : act exec T c a = some c') : K.Inv c' ∧ S.Good c c' a := by
  cases act_acts ha with
  | @start t call hnone =>
    obtain ⟨hi, hguar, hsafe⟩ := K.starts t call c.shared h.inv (h.idle t hnone) hp
    exact ⟨K.inv_setAt h hi hguar (by simp) (by rintro p ⟨⟩; exact hsafe), trivial⟩
  | @step t x o k r s hpool hx =>
    simp only [Permits, hpool] at hp
    obtain ⟨hok, hk⟩ := h.safe t _ hpool c.shared h.inv (S.refl t _) x r s hx hp
    refine ⟨K.inv_setAt h hok.inv hok.guar (by simp) (by rintro p ⟨⟩; exact hk), ?_⟩
    simp only [Good, hpool]
    exact hok.good
  | @finish t r hpool =>
    have hidle := safe_ended.mp (h.safe t _ hpool) _ h.inv (S.refl t _)
    exact ⟨K.inv_setAt h h.inv (fun t' _ => S.refl t' c.shared) (fun _ => hidle) (by simp), trivial⟩

theorem Calls.run_inv (K : S.Calls T) : ∀ {as : List (Action C χ)} {c c' : Config Op Ans ε σ α}, K.Inv c →
    Meets exec T A c as → run exec T c as = some c' → K.Inv c'
  | [], _, _, h, _, he => by cases he; exact h
  | a :: as, c, c', h, hm, he => by
    obtain ⟨c₁, ha, he⟩ := act_of_run_cons he
    obtain ⟨hp, hm⟩ := hm
    rw [ha] at hm
    exact K.run_inv (K.act_inv h hp ha).1 hm he

/-- So a relation that every action of safe threads meets holds along the run. -/
theorem Calls.run_along (K : S.Calls T) {P : Config Op Ans ε σ α → Config Op Ans ε σ α → Prop}
    (hP : ∀ c a c', K.Inv c → act exec T c a = some c' → S.Good c c' a → P c c') :
    ∀ {as : List (Action C χ)} {c : Config Op Ans ε σ α}, K.Inv c → Meets exec T A c as → Along exec T P c as
  | [], _, _, _ => trivial
  | a :: as, c, h, hm => by
    obtain ⟨hp, hm⟩ := hm
    simp only [Along]
    split
    · trivial
    · rename_i c' ha
      rw [ha] at hm
      obtain ⟨h', hg⟩ := K.act_inv h hp ha
      exact ⟨hP c a c' h ha hg, K.run_along hP h' hm⟩

end Spec

end ModAspNet.Core
