import ModAspNet.Core.Follow

/-!
# What a call has performed

`Follow` remembers the call a thread is in; here also the operations it has
performed in it, in order, each with its answer and the state it was performed
in (`Done`).

* `Prog.Comes`: the operations that lead from a program to another, with one
  inversion for each way programs are built.
* `Straight`, `Telling`: an exception that leaves a program comes from the last
  operation performed.
* `Tracks.run`: what a call starts with, its own operations keep and the other
  threads do not disturb holds of every thread in every run.
* `record_chained`, `record_performed`: what every operation keeps and relates holds
  along every record, whose operations were performed at moments of the run.
* `Lock.record_accounts`: at any moment a thread holds a lock as often as it did
  when its call began, and as the record of the call adds to it.
-/
namespace ModAspNet.Core

variable {Op : Type} {Ans : Op → Type} {ε χ σ C α β : Type}

/-- An operation that was performed. -/
structure Done (Op : Type) (Ans : Op → Type) (ε σ : Type) where
  op : Op
  answer : Except ε (Ans op)
  before : σ

def Done.raised (d : Done Op Ans ε σ) : Bool :=
  match d.answer with
  | .ok _ => false
  | .error _ => true

/-- The last of the operations raised. -/
def lastRaised (tr : List (Done Op Ans ε σ)) : Bool := tr.getLast?.any Done.raised

theorem lastRaised_append {tr tr' : List (Done Op Ans ε σ)} (h : tr' ≠ []) :
    lastRaised (tr ++ tr') = lastRaised tr' := by
  rw [lastRaised, List.getLast?_append, List.getLast?_eq_some_getLast h, Option.some_or, ← List.getLast?_eq_some_getLast h,
    lastRaised]

theorem lastRaised_snoc (tr : List (Done Op Ans ε σ)) (d : Done Op Ans ε σ) : lastRaised (tr ++ [d]) = d.raised := by
  rw [lastRaised, List.getLast?_concat]; rfl

theorem lastRaised_of_none {tr : List (Done Op Ans ε σ)} (h : ∀ d ∈ tr, d.raised = false) : lastRaised tr = false := by
  unfold lastRaised
  cases hl : tr.getLast? with
  | none => rfl
  | some d => exact h d (List.mem_of_getLast? hl)

theorem exists_of_lastRaised {tr : List (Done Op Ans ε σ)} (h : lastRaised tr = true) : ∃ d ∈ tr, d.raised = true := by
  unfold lastRaised at h
  cases hl : tr.getLast? with
  | none => rw [hl] at h; cases h
  | some d => rw [hl] at h; exact ⟨d, List.mem_of_getLast? hl, h⟩

/-! ## From a program to another -/

namespace Prog

/-- The program performs these operations, with these answers, and comes to
the other. -/
inductive Comes : Prog Op Ans ε α → List (Done Op Ans ε σ) → Prog Op Ans ε α → Prop
  | here (p) : Comes p [] p
  | call {o k r s tr q} (h : Comes (k r) tr q) : Comes (.call o k) (⟨o, r, s⟩ :: tr) q

theorem Comes.snoc {o : Op} {k : Except ε (Ans o) → Prog Op Ans ε α} {tr : List (Done Op Ans ε σ)}
    {p q : Prog Op Ans ε α} (h : Comes p tr q) (hq : q = .call o k) (r : Except ε (Ans o)) (s : σ) :
    Comes p (tr ++ [⟨o, r, s⟩]) (k r) := by
  induction h with
  | here p => subst hq; exact .call (.here _)
  | call _ ih => exact .call (ih hq)

/-- What the program performs until it ends. -/
abbrev Ends (p : Prog Op Ans ε α) (tr : List (Done Op Ans ε σ)) (r : Except ε α) : Prop := Comes p tr (.ended r)

section
variable {tr : List (Done Op Ans ε σ)}

theorem ends_ended {q r : Except ε α} (h : Ends (.ended q) tr r) : tr = [] ∧ r = q := by
  unfold Ends at h
  cases q <;> cases r <;> cases h <;> exact ⟨rfl, rfl⟩

theorem ends_pure {a : α} {r : Except ε α} (h : Ends (pure a) tr r) : tr = [] ∧ r = .ok a :=
  ends_ended (q := .ok a) h

theorem ends_call {o : Op} {k : Except ε (Ans o) → Prog Op Ans ε α} {r : Except ε α} (h : Ends (.call o k) tr r) :
    ∃ a s tr', tr = ⟨o, a, s⟩ :: tr' ∧ Ends (k a) tr' r := by
  unfold Ends at h
  generalize hq : ended r = q at h
  cases h with
  | here => cases r <;> cases hq
  | call h => subst hq; exact ⟨_, _, _, rfl, h⟩

theorem ends_perform {o : Op} {r : Except ε (Ans o)} (h : Ends (perform o) tr r) : ∃ s, tr = [⟨o, r, s⟩] := by
  obtain ⟨a, s, tr', rfl, hk⟩ := ends_call h
  cases a with
  | ok a => obtain ⟨rfl, rfl⟩ := ends_ended (q := .ok a) hk; exact ⟨s, rfl⟩
  | error e => obtain ⟨rfl, rfl⟩ := ends_ended (q := .error e) hk; exact ⟨s, rfl⟩

/-- The first part raises, or the second goes on with its value. -/
theorem ends_bind {f : α → Prog Op Ans ε β} {r : Except ε β} : ∀ {p : Prog Op Ans ε α} {tr : List (Done Op Ans ε σ)},
    Ends (p >>= f) tr r → (∃ e, r = .error e ∧ Ends p tr (.error e)) ∨
      ∃ a tr₁ tr₂, tr = tr₁ ++ tr₂ ∧ Ends p tr₁ (.ok a) ∧ Ends (f a) tr₂ r
  | .ret a, tr, h => .inr ⟨a, [], tr, rfl, .here _, h⟩
  | .throw e, tr, h => by
    obtain ⟨rfl, rfl⟩ := ends_ended (q := .error e) h
    exact .inl ⟨e, rfl, .here _⟩
  | .call o k, tr, h => by
    obtain ⟨a, s, tr', rfl, hk⟩ := ends_call h
    rcases ends_bind hk with ⟨e, rfl, hp⟩ | ⟨b, tr₁, tr₂, rfl, hp, hf⟩
    · exact .inl ⟨e, rfl, .call hp⟩
    · exact .inr ⟨b, _, tr₂, rfl, .call hp, hf⟩

theorem ends_attempt {r : Except ε (Except ε α)} : ∀ {p : Prog Op Ans ε α} {tr : List (Done Op Ans ε σ)},
    Ends p.attempt tr r → ∃ r', r = .ok r' ∧ Ends p tr r'
  | .ret a, _, h => by
    obtain ⟨rfl, rfl⟩ := ends_pure (a := (.ok a : Except ε α)) h
    exact ⟨.ok a, rfl, .here _⟩
  | .throw e, _, h => by
    obtain ⟨rfl, rfl⟩ := ends_pure (a := (.error e : Except ε α)) h
    exact ⟨.error e, rfl, .here _⟩
  | .call o k, _, h => by
    obtain ⟨a, s, tr', rfl, hk⟩ := ends_call h
    obtain ⟨r', rfl, hp⟩ := ends_attempt hk
    exact ⟨r', rfl, .call hp⟩

/-- The body returns, or the handler ends with what it raised. -/
theorem ends_tryCatch {p : Prog Op Ans ε α} {handler : ε → Prog Op Ans ε α} {r : Except ε α}
    (h : Ends (p.tryCatch handler) tr r) : (∃ a, r = .ok a ∧ Ends p tr (.ok a)) ∨
      ∃ e tr₁ tr₂, tr = tr₁ ++ tr₂ ∧ Ends p tr₁ (.error e) ∧ Ends (handler e) tr₂ r := by
  rcases ends_bind h with ⟨e, -, hp⟩ | ⟨r', tr₁, tr₂, rfl, hp, hr⟩
  · obtain ⟨r', hr', -⟩ := ends_attempt hp
    cases hr'
  · obtain ⟨r'', hr', hp⟩ := ends_attempt hp
    cases hr'
    cases r' with
    | ok a =>
      obtain ⟨rfl, rfl⟩ := ends_pure hr
      exact .inl ⟨a, rfl, by rwa [List.append_nil]⟩
    | error e => exact .inr ⟨e, tr₁, tr₂, rfl, hp, hr⟩

/-- A handler that returns lets nothing out. -/
theorem ends_caught {p : Prog Op Ans ε α} {f : ε → α} {r : Except ε α}
    (h : Ends (p.tryCatch fun e => pure (f e)) tr r) : ∃ a, r = .ok a := by
  rcases ends_tryCatch h with ⟨a, rfl, -⟩ | ⟨e, tr₁, tr₂, -, -, hpure⟩
  · exact ⟨a, rfl⟩
  · exact ⟨f e, (ends_pure hpure).2⟩

theorem Performs.ends {ok : Op → Prop} {r : Except ε α} : ∀ {p : Prog Op Ans ε α} {tr : List (Done Op Ans ε σ)},
    p.Performs ok → Ends p tr r → ∀ d ∈ tr, ok d.op
  | .ret a, tr, _, h => by
    obtain ⟨rfl, -⟩ := ends_ended (q := .ok a) h
    simp
  | .throw e, tr, _, h => by
    obtain ⟨rfl, -⟩ := ends_ended (q := .error e) h
    simp
  | .call o k, tr, hp, h => by
    obtain ⟨a, s, tr', rfl, hk⟩ := ends_call h
    intro d hd
    rcases List.mem_cons.mp hd with rfl | hd
    · exact hp.1
    · exact (hp.2 a).ends hk d hd

end

/-! ## Where an exception comes from -/

/-- A program that catches nothing: it goes on as long as nothing raises. -/
def Straight (σ : Type) (p : Prog Op Ans ε α) : Prop :=
  ∀ (tr : List (Done Op Ans ε σ)) r, Ends p tr r → match r with
    | .ok _ => ∀ d ∈ tr, d.raised = false
    | .error _ => lastRaised tr = true

/-- The last operation tells how the program ended. -/
def Telling (σ : Type) (p : Prog Op Ans ε α) : Prop :=
  ∀ (tr : List (Done Op Ans ε σ)) r, Ends p tr r → match r with
    | .ok _ => lastRaised tr = false
    | .error _ => lastRaised tr = true

theorem Straight.pure (a : α) : Straight σ (pure a : Prog Op Ans ε α) := by
  intro tr r h
  obtain ⟨rfl, rfl⟩ := ends_pure h
  simp

theorem Straight.perform (o : Op) : Straight σ (perform o : Prog Op Ans ε (Ans o)) := by
  intro tr r h
  obtain ⟨s, rfl⟩ := ends_perform h
  cases r with
  | ok a => simp [Done.raised]
  | error e => rfl

theorem Straight.bind {p : Prog Op Ans ε α} {f : α → Prog Op Ans ε β} (hp : Straight σ p)
    (hf : ∀ a, Straight σ (f a)) : Straight σ (p >>= f) := by
  intro tr r h
  rcases ends_bind h with ⟨e, rfl, h₁⟩ | ⟨a, tr₁, tr₂, rfl, h₁, h₂⟩
  · exact hp tr _ h₁
  · have hno := hp tr₁ _ h₁
    have hrest := hf a tr₂ r h₂
    cases r with
    | ok b => exact fun d hd => (List.mem_append.mp hd).elim (hno d) (hrest d)
    | error e =>
      have hne : tr₂ ≠ [] := by rintro rfl; cases hrest
      exact (lastRaised_append hne).trans hrest

theorem Straight.telling {p : Prog Op Ans ε α} (h : Straight σ p) : Telling σ p := by
  intro tr r he
  have := h tr r he
  cases r with
  | ok a => exact lastRaised_of_none this
  | error e => exact this

/-- A handler that performs something tells how it ended. -/
theorem Telling.tryCatch {p : Prog Op Ans ε α} {handler : ε → Prog Op Ans ε α} (hp : Telling σ p)
    (hh : ∀ e, Telling σ (handler e)) (hcall : ∀ e, ∃ o k, handler e = .call o k) : Telling σ (p.tryCatch handler) := by
  intro tr r h
  rcases ends_tryCatch h with ⟨a, rfl, h₁⟩ | ⟨e, tr₁, tr₂, rfl, -, h₂⟩
  · exact hp tr _ h₁
  · have hne : tr₂ ≠ [] := by
      obtain ⟨o, k, ho⟩ := hcall e
      rw [ho] at h₂
      obtain ⟨a, s, tr', rfl, -⟩ := ends_call h₂
      exact List.cons_ne_nil _ _
    rw [lastRaised_append hne]
    exact hh e tr₂ r h₂

end Prog

/-! ## The record of a run -/

/-- What each thread has performed in the call it is in. -/
abbrev Records (Op : Type) (Ans : Op → Type) (ε σ : Type) := Nat → List (Done Op Ans ε σ)

section
variable (exec : Exec Op Ans ε χ σ) (T : Tasks Op Ans ε σ C α)

/-- What a thread performs next. -/
def performed (c : Config Op Ans ε σ α) (t : Nat) (x : χ) : List (Done Op Ans ε σ) :=
  match c.pool t with
  | some (.call o _) =>
    match exec t o x c.shared with
    | some (r, _) => [⟨o, r, c.shared⟩]
    | none => []
  | _ => []

/-- After an action. -/
def Records.after (ρ : Records Op Ans ε σ) (c : Config Op Ans ε σ α) : Action C χ → Records Op Ans ε σ
  | .start t _ => setAt ρ t []
  | .step t x => setAt ρ t (ρ t ++ performed exec c t x)
  | .finish _ => ρ

/-- After a run. -/
def record (c : Config Op Ans ε σ α) (ρ : Records Op Ans ε σ) : List (Action C χ) → Records Op Ans ε σ
  | [] => ρ
  | a :: as =>
    match act exec T c a with
    | none => ρ
    | some c' => record c' (ρ.after exec c a) as

/-- What is said of a thread in a call: the call, the state it was started in,
what the thread has performed, what is left of the program, and the state now. -/
structure Tracks where
  inv : Nat → C → σ → List (Done Op Ans ε σ) → Prog Op Ans ε α → σ → Prop
  start : ∀ t call s, inv t call s [] (T.body call) (T.enter t call s)
  own : ∀ {t call s₀ tr o k s}, inv t call s₀ tr (.call o k) s → ∀ x r s', exec t o x s = some (r, s') →
    inv t call s₀ (tr ++ [⟨o, r, s⟩]) (k r) s'
  other_start : ∀ {t call s₀ tr p s}, inv t call s₀ tr p s → ∀ t' call', t' ≠ t →
    inv t call s₀ tr p (T.enter t' call' s)
  other_step : ∀ {t call s₀ tr p s}, inv t call s₀ tr p s → ∀ t' o x r s', t' ≠ t →
    exec t' o x s = some (r, s') → inv t call s₀ tr p s'

variable {exec T} (K : Tracks exec T)

/-- Of every thread that is in a call. -/
def Tracks.Inv (κ : Calling C σ) (ρ : Records Op Ans ε σ) (c : Config Op Ans ε σ α) : Prop :=
  ∀ t p, c.pool t = some p → ∃ call s₀, κ t = some (call, s₀) ∧ K.inv t call s₀ (ρ t) p c.shared

theorem Records.after_of_ne (ρ : Records Op Ans ε σ) (c : Config Op Ans ε σ α) {a : Action C χ} {t : Nat}
    (h : t ≠ a.thread) : ρ.after exec c a t = ρ t := by
  cases a with
  | start t' call => exact setAt_of_ne _ _ h
  | step t' x => exact setAt_of_ne _ _ h
  | finish t' => rfl

theorem Tracks.act {κ : Calling C σ} {ρ : Records Op Ans ε σ} {c c' : Config Op Ans ε σ α} {a : Action C χ}
    (h : K.Inv κ ρ c) (ha : act exec T c a = some c') : K.Inv (κ.after c.shared a) (ρ.after exec c a) c' := by
  intro t p hp
  by_cases ht : t = a.thread
  · subst ht
    cases act_acts ha with
    | @start t call hnone =>
      cases (setAt_self _ _ _).symm.trans hp
      refine ⟨call, c.shared, setAt_self _ _ _, ?_⟩
      simp only [Action.thread, Records.after, setAt_self]
      exact K.start t call c.shared
    | @step t x o k r s hpool hx =>
      cases (setAt_self _ _ _).symm.trans hp
      obtain ⟨call, s₀, hκ, hinv⟩ := h t _ hpool
      refine ⟨call, s₀, hκ, ?_⟩
      simp only [Action.thread, Records.after, performed, hpool, hx, setAt_self]
      exact K.own hinv x r s hx
    | @finish t r hpool => cases (setAt_self _ _ _).symm.trans hp
  · rw [act_pool ha ht] at hp
    obtain ⟨call, s₀, hκ, hinv⟩ := h t p hp
    refine ⟨call, s₀, by rw [κ.after_of_ne _ ht, hκ], ?_⟩
    rw [ρ.after_of_ne c ht]
    cases act_acts ha with
    | @start t' call' hnone => exact K.other_start hinv t' call' (Ne.symm ht)
    | @step t' x o k r s hpool hx => exact K.other_step hinv t' o x r s (Ne.symm ht) hx
    | finish hpool => exact hinv

theorem record_cons {ρ : Records Op Ans ε σ} {c c' : Config Op Ans ε σ α} {a : Action C χ}
    (ha : Core.act exec T c a = some c') (as : List (Action C χ)) :
    record exec T c ρ (a :: as) = record exec T c' (ρ.after exec c a) as := by
  rw [record, ha]

theorem Tracks.run : ∀ {as : List (Action C χ)} {κ : Calling C σ} {ρ : Records Op Ans ε σ} {c c' : Config Op Ans ε σ α},
    K.Inv κ ρ c → run exec T c as = some c' → K.Inv (calling exec T c κ as) (record exec T c ρ as) c'
  | [], _, _, _, _, h, he => by cases he; exact h
  | a :: as, κ, ρ, c, c', h, he => by
    obtain ⟨c₁, ha, he⟩ := act_of_run_cons he
    rw [calling_cons ha, record_cons ha]
    exact Tracks.run (K.act h ha) he

theorem calling_append {bs : List (Action C χ)} : ∀ {as : List (Action C χ)} {κ : Calling C σ}
    {c c' : Config Op Ans ε σ α}, Core.run exec T c as = some c' →
      calling exec T c κ (as ++ bs) = calling exec T c' (calling exec T c κ as) bs
  | [], _, _, _, he => by cases he; rfl
  | a :: as, κ, c, c', he => by
    obtain ⟨c₁, ha, he⟩ := act_of_run_cons he
    rw [List.cons_append, calling_cons ha, calling_cons ha]
    exact calling_append he

end

/-- A thread is where its record has led it from the beginning of its call. -/
def comesTracks (exec : Exec Op Ans ε χ σ) (T : Tasks Op Ans ε σ C α) : Tracks exec T where
  inv _ call _ tr p _ := Prog.Comes (T.body call) tr p
  start _ call _ := .here (T.body call)
  own h _ r _ _ := h.snoc rfl r _
  other_start h _ _ _ := h
  other_step h _ _ _ _ _ _ _ := h

/-! ## The states of a record -/

/-- Every operation of a record was performed, in a state with `F`, and the states
come one after the other, up to the one of now. -/
structure Chained (exec : Exec Op Ans ε χ σ) (F : σ → Prop) (R : σ → σ → Prop) (tr : List (Done Op Ans ε σ))
    (s : σ) : Prop where
  did : ∀ d ∈ tr, F d.before ∧ R d.before s ∧ ∃ t x s', exec t d.op x d.before = some (d.answer, s')
  order : tr.Pairwise fun d d' => R d.before d'.before

section
variable {exec : Exec Op Ans ε χ σ} {T : Tasks Op Ans ε σ C α} {F : σ → Prop} {R : σ → σ → Prop}

theorem Chained.later (htrans : ∀ s s' s'', R s s' → R s' s'' → R s s'') {tr : List (Done Op Ans ε σ)} {s s' : σ}
    (h : Chained exec F R tr s) (hr : R s s') : Chained exec F R tr s' :=
  ⟨fun d hd => ⟨(h.did d hd).1, htrans _ _ _ (h.did d hd).2.1 hr, (h.did d hd).2.2⟩, h.order⟩

theorem Chained.snoc (htrans : ∀ s s' s'', R s s' → R s' s'' → R s s'') {tr : List (Done Op Ans ε σ)} {t : Nat} {o : Op}
    {x : χ} {s s' : σ} {r : Except ε (Ans o)} (h : Chained exec F R tr s) (hF : F s) (hx : exec t o x s = some (r, s'))
    (hr : R s s') : Chained exec F R (tr ++ [⟨o, r, s⟩]) s' := by
  refine ⟨fun d hd => ?_, List.pairwise_append.mpr ⟨h.order, List.pairwise_singleton _ _, fun d hd d' hd' => ?_⟩⟩
  · rcases List.mem_append.mp hd with hd | hd
    · exact (h.later htrans hr).did d hd
    · obtain rfl := List.mem_singleton.mp hd
      exact ⟨hF, hr, t, x, s', hx⟩
  · obtain rfl := List.mem_singleton.mp hd'
    exact (h.did d hd).2.1

/-- What every operation and every start of a call keep, and relate, is kept and
related along every record of a run. -/
theorem record_chained (htrans : ∀ s s' s'', R s s' → R s' s'' → R s s'')
    (hexec : ∀ t o x s r s', F s → exec t o x s = some (r, s') → F s' ∧ R s s')
    (henter : ∀ t call s, F s → F (T.enter t call s) ∧ R s (T.enter t call s)) {as : List (Action C χ)}
    {ρ : Records Op Ans ε σ} {c c' : Config Op Ans ε σ α} (hF : F c.shared) (h : ∀ t, Chained exec F R (ρ t) c.shared)
    (he : run exec T c as = some c') : F c'.shared ∧ ∀ t, Chained exec F R (record exec T c ρ as t) c'.shared := by
  induction as generalizing ρ c with
  | nil =>
    cases he
    exact ⟨hF, h⟩
  | cons a as ih =>
    obtain ⟨c₁, ha, he⟩ := act_of_run_cons he
    rw [record_cons ha]
    have hstep : F c₁.shared ∧ ∀ t, Chained exec F R (ρ.after exec c a t) c₁.shared := by
      cases act_acts ha with
      | @start u call hnone =>
        obtain ⟨hF', hr⟩ := henter u call c.shared hF
        refine ⟨hF', fun t => ?_⟩
        by_cases ht : t = u
        · subst ht
          rw [Records.after, setAt_self]
          exact ⟨fun _ hd => absurd hd List.not_mem_nil, .nil⟩
        · rw [Records.after, setAt_of_ne _ _ ht]
          exact (h t).later htrans hr
      | @step u x o k r s hpool hx =>
        obtain ⟨hF', hr⟩ := hexec u o x c.shared r s hF hx
        refine ⟨hF', fun t => ?_⟩
        by_cases ht : t = u
        · subst ht
          simp only [Records.after, performed, hpool, hx, setAt_self]
          exact (h t).snoc htrans hF hx hr
        · rw [Records.after, setAt_of_ne _ _ ht]
          exact (h t).later htrans hr
      | finish hpool => exact ⟨hF, h⟩
    exact ih hstep.1 hstep.2 he

end

/-- What is in a record was performed at some moment of the run. -/
theorem record_performed {exec : Exec Op Ans ε χ σ} {T : Tasks Op Ans ε σ C α}
    {as : List (Action C χ)} {ρ : Records Op Ans ε σ} {c c' : Config Op Ans ε σ α} (he : run exec T c as = some c')
    {t : Nat} {d : Done Op Ans ε σ} (hd : d ∈ record exec T c ρ as t) : d ∈ ρ t ∨
      ∃ as₁ as₂ c₁ k, as = as₁ ++ as₂ ∧ run exec T c as₁ = some c₁ ∧ c₁.pool t = some (.call d.op k) ∧
        c₁.shared = d.before := by
  induction as generalizing ρ c with
  | nil => exact .inl hd
  | cons a as ih =>
    obtain ⟨c₁, ha, he⟩ := act_of_run_cons he
    rw [record_cons ha] at hd
    rcases ih he hd with hwas | ⟨as₁, as₂, c₂, k, rfl, hrun, hpool, hs⟩
    · by_cases ht : t = a.thread
      · subst ht
        cases act_acts ha with
        | @start u call hnone =>
          simp only [Action.thread, Records.after, setAt_self, List.not_mem_nil] at hwas
        | @step u x o k r s hpool hx =>
          simp only [Action.thread, Records.after, performed, hpool, hx, setAt_self] at hwas
          rcases List.mem_append.mp hwas with hwas | hnew
          · exact .inl hwas
          · obtain rfl := List.mem_singleton.mp hnew
            exact .inr ⟨[], _, c, k, rfl, rfl, hpool, rfl⟩
        | finish hpool => exact .inl hwas
      · rw [ρ.after_of_ne c ht] at hwas
        exact .inl hwas
    · exact .inr ⟨a :: as₁, as₂, c₂, k, rfl, by rw [run, ha]; exact hrun, hpool, hs⟩

/-! ## Locks -/

/-- A lock that one thread at a time holds, as often as it entered it; leaving
it without holding it raises. -/
structure Lock (exec : Exec Op Ans ε χ σ) where
  held : Nat → σ → Nat
  enters : Op → Bool
  exits : Op → Bool
  /-- no operation does both -/
  apart : ∀ o, enters o = true → exits o = false
  enter_ok : ∀ {t o x s a s'}, enters o = true → exec t o x s = some (.ok a, s') → held t s' = held t s + 1
  enter_error : ∀ {t o x s e s'}, enters o = true → exec t o x s = some (.error e, s') → held t s' = held t s
  exit_ok : ∀ {t o x s a s'}, exits o = true → exec t o x s = some (.ok a, s') → held t s' + 1 = held t s
  exit_error : ∀ {t o x s e s'}, exits o = true → exec t o x s = some (.error e, s') →
    held t s = 0 ∧ held t s' = 0
  rest : ∀ {t o x s r s'}, enters o = false → exits o = false → exec t o x s = some (r, s') → held t s' = held t s
  other : ∀ {t t' o x s r s'}, t' ≠ t → exec t' o x s = some (r, s') → held t s' = held t s

namespace Lock
variable {exec : Exec Op Ans ε χ σ} (L : Lock exec)

/-- How often the lock was entered. -/
def entered (tr : List (Done Op Ans ε σ)) : Nat := tr.countP fun d => L.enters d.op && !d.raised

/-- How often it was left. -/
def left (tr : List (Done Op Ans ε σ)) : Nat := tr.countP fun d => L.exits d.op && !d.raised

@[simp] theorem entered_nil : L.entered ([] : List (Done Op Ans ε σ)) = 0 := rfl

@[simp] theorem left_nil : L.left ([] : List (Done Op Ans ε σ)) = 0 := rfl

@[simp] theorem entered_append (tr tr' : List (Done Op Ans ε σ)) : L.entered (tr ++ tr') = L.entered tr + L.entered tr' :=
  List.countP_append

@[simp] theorem left_append (tr tr' : List (Done Op Ans ε σ)) : L.left (tr ++ tr') = L.left tr + L.left tr' :=
  List.countP_append

/-- What one operation does to the count. -/
theorem step {t : Nat} {o : Op} {x : χ} {s s' : σ} {r : Except ε (Ans o)} (hx : exec t o x s = some (r, s')) :
    L.held t s' + L.left [(⟨o, r, s⟩ : Done Op Ans ε σ)] = L.held t s + L.entered [(⟨o, r, s⟩ : Done Op Ans ε σ)] := by
  unfold left entered
  rw [List.countP_singleton, List.countP_singleton]
  cases hin : L.enters o with
  | true =>
    cases r with
    | ok a => simpa [L.apart o hin, hin, Done.raised] using L.enter_ok hin hx
    | error e => simpa [Done.raised] using L.enter_error hin hx
  | false =>
    cases hout : L.exits o with
    | true =>
      cases r with
      | ok a => simpa [hin, hout, Done.raised] using L.exit_ok hout hx
      | error e => simp [Done.raised, L.exit_error hout hx]
    | false => simpa [hin, hout] using L.rest hin hout hx

/-- Given back: left as often as entered, and never without holding it. -/
structure GivenBack (t : Nat) (tr : List (Done Op Ans ε σ)) : Prop where
  even : L.left tr = L.entered tr
  holding : ∀ d ∈ tr, L.exits d.op = true → 0 < L.held t d.before

/-- What the record of a call says of a thread that held the lock `n` times when
the call began. -/
structure Accounts (t n : Nat) (tr : List (Done Op Ans ε σ)) : Prop where
  before : ∀ pre d post, tr = pre ++ d :: post → L.held t d.before + L.left pre = n + L.entered pre
  refused : ∀ d ∈ tr, L.exits d.op = true → (d.raised = true ↔ L.held t d.before = 0)

theorem Accounts.snoc {t n : Nat} {tr : List (Done Op Ans ε σ)} {o : Op} {x : χ} {s s' : σ} {r : Except ε (Ans o)}
    (h : L.Accounts t n tr) (hs : L.held t s + L.left tr = n + L.entered tr) (hx : exec t o x s = some (r, s')) :
    L.Accounts t n (tr ++ [⟨o, r, s⟩]) ∧
      L.held t s' + L.left (tr ++ [⟨o, r, s⟩]) = n + L.entered (tr ++ [⟨o, r, s⟩]) := by
  refine ⟨⟨fun pre d post he => ?_, fun d hd hexit => ?_⟩, ?_⟩
  · rcases List.eq_nil_or_concat post with rfl | ⟨post', d', rfl⟩
    · obtain ⟨rfl, hd⟩ := List.append_inj' he rfl
      obtain rfl := List.singleton_inj.mp hd
      exact hs
    · rw [List.concat_eq_append, ← List.cons_append, ← List.append_assoc] at he
      exact h.before pre d post' (List.append_inj' he rfl).1
  · rcases List.mem_append.mp hd with hd | hd
    · exact h.refused d hd hexit
    · obtain rfl := List.mem_singleton.mp hd
      cases r with
      | ok a =>
        have := L.exit_ok hexit hx
        exact ⟨nofun, fun h0 => absurd this (by simp only [h0]; omega)⟩
      | error e => exact ⟨fun _ => (L.exit_error hexit hx).1, fun _ => rfl⟩
  · rw [L.left_append, L.entered_append]
    have hstep := L.step hx
    omega

/-- Every thread's record accounts for how often it holds the lock, when calls
are started without touching it. -/
def accountsTracks (T : Tasks Op Ans ε σ C α) (hstart : ∀ t t' call s, L.held t' (T.enter t call s) = L.held t' s) :
    Tracks exec T where
  inv t _ s₀ tr _ s := L.Accounts t (L.held t s₀) tr ∧ L.held t s + L.left tr = L.held t s₀ + L.entered tr
  start t call s := ⟨⟨fun _ _ _ he => by simp at he, nofun⟩, by simp [hstart]⟩
  own h _ _ _ hx := h.1.snoc L h.2 hx
  other_start h t' call' _ := ⟨h.1, by rw [hstart]; exact h.2⟩
  other_step h t' _ _ _ _ hne hx := ⟨h.1, by rw [L.other hne hx]; exact h.2⟩

/-- An operation leaves the lock when the thread has entered it in this call
more often than it has left it. -/
theorem Accounts.granted {t n : Nat} {tr pre post : List (Done Op Ans ε σ)} {d : Done Op Ans ε σ}
    (h : L.Accounts t n tr) (he : tr = pre ++ d :: post) (hd : L.exits d.op = true) (hlt : L.left pre < L.entered pre) :
    d.raised = false ∧ 0 < L.held t d.before := by
  have hcount := h.before pre d post he
  have hpos : 0 < L.held t d.before := by omega
  have hmem : d ∈ tr := by rw [he]; simp
  refine ⟨?_, hpos⟩
  rw [← Bool.not_eq_true, h.refused d hmem hd]
  omega

end Lock

end ModAspNet.Core
