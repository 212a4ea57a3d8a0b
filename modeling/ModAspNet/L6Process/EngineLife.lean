import ModAspNet.L6Process.Engine

/-!
# The engine over the life of a process

Any number of attempts to start the engine, then the cleanups of the pool.

* `clean_run`: after the attempts nothing was bound, or the runtime is held and
  registered once, or the run is spoilt: it went through null, registered the
  release of one runtime twice, or holds a reference that no pointer has.
* `engine_balanced_iff`: so the life is balanced exactly when no attempt
  registers the cleanup, or one does, which binds a runtime and ends before it
  holds an object handle.
* `startEngine_simulates`: the outcomes `Passes.startEngine` takes as data are
  those of the attempts here.
-/
namespace ModAspNet.L6.Engine

open ModAspNet.Core.Refs ModAspNet.L1.CStr
open ModAspNet.L4.HostFactory (Factory)
open ModAspNet.L6.Passes (EngineStart startEngine)

/-! ## The property -/

/-- The life of a process with these attempts. `nonzero` is about the attempts
that try to start the engine. -/
structure EngineBalanced (As : List Answers) : Prop where
  no_null_call : (runs (process As) newEngine).1 ≠ .error .accessViolation
  released_once : (runs (process As) newEngine).2.refs.Balanced
  nonzero : ∀ done A rest, As = done ++ A :: rest →
    ∀ statuses e status e', runs (attempts done) newEngine = (.ok statuses, e) → e.missing = true →
      runs (postConfig A) e = (.ok status, e') →
      (A.unbound || !A.start || A.uncreated) = true → status ≠ 0

/-- No attempt registers the cleanup, or one does and is short. -/
def Balancing (As : List Answers) : Prop :=
  As.filter Answers.registers = [] ∨ ∃ A, As.filter Answers.registers = [A] ∧ A.short = true

section
variable {e : EngineConf} {held : List Nat} {pc pf : Option Nat} {n : Nat}

/-! ## One attempt -/

/-- Nothing was bound. -/
def Clean (e : EngineConf) : Prop := Holding e [] none none 0

/-- The runtime is held, its pointer has it, and the cleanup is registered once. -/
def Bound (e : EngineConf) : Prop := ∃ r, Holding e [r] (some r) none 1

/-- A runtime that will be released twice, or a reference that no pointer has. -/
def Spoilt (e : EngineConf) : Prop :=
  ∃ held r pf n, Holding e held (some r) pf n ∧ r ∈ held ∧
    (2 ≤ n ∨ n = 1 ∧ ∃ o ∈ held, o ≠ r ∧ pf ≠ some o)

/-- A run goes through null, or ends in a state with `P`. -/
def EndsIn (P : EngineConf → Prop) {α : Type} (p : EngineM α) (e : EngineConf) : Prop :=
  ∃ res e', runs p e = (res, e') ∧ (res = .error .accessViolation ∨ P e')

theorem EndsIn.bind {P : EngineConf → Prop} {α β : Type} {p : EngineM α} {f : α → EngineM β} (h : EndsIn P p e)
    (hf : ∀ a e', P e' → EndsIn P (f a) e') : EndsIn P (p >>= f) e := by
  obtain ⟨res, e', hp, hres⟩ := h
  cases res with
  | error x =>
    refine ⟨_, e', runs_bind_error hp, ?_⟩
    rcases hres with hcrash | hP
    · cases hcrash; exact .inl rfl
    · exact .inr hP
  | ok a =>
    rcases hres with hcrash | hP
    · cases hcrash
    · obtain ⟨res, e'', hfa, hres⟩ := hf a e' hP
      exact ⟨res, e'', (runs_bind_ok hp).trans hfa, hres⟩

theorem spoilt_step (h : Spoilt e) (A : Answers) : EndsIn Spoilt (postConfig A) e := by
  obtain ⟨held, r, pf, n, hheld, hr, hwhy⟩ := h
  have hn : 1 ≤ n := by omega
  have hpc : ∀ r', some r = some r' → r' ∈ held := fun r' heq => Option.some.inj heq ▸ hr
  cases pf with
  | some f =>
    have hmissing : e.missing = false := by simp [EngineConf.missing, hheld.runtime, hheld.factory]
    obtain ⟨res, hrun⟩ := postConfig_started A hmissing
    exact ⟨res, e, hrun, .inr ⟨held, r, some f, n, hheld, hr, hwhy⟩⟩
  | none =>
    cases hA : A.registers with
    | false =>
      obtain ⟨e', hrun, hheld'⟩ := postConfig_unregistered hheld hA
      exact ⟨_, e', hrun, .inr ⟨held, r, none, n, hheld', hr, hwhy⟩⟩
    | true =>
      -- registered again
      rcases postConfig_registers hheld hpc hA with
        ⟨-, e', r', hrun, hheld'⟩ | ⟨-, res, e', hrun, hcrash | ⟨held', r', pf, hheld', hr', -⟩⟩
      · exact ⟨_, e', hrun, .inr ⟨_, r', none, n + 1, hheld', .head _, .inl (by omega)⟩⟩
      · exact ⟨res, e', hrun, .inl hcrash⟩
      · exact ⟨res, e', hrun, .inr ⟨held', r', pf, n + 1, hheld', hr', .inl (by omega)⟩⟩

theorem bound_step_again (h : Bound e) {A : Answers} (hA : A.registers = true) : EndsIn Spoilt (postConfig A) e := by
  obtain ⟨r, hheld⟩ := h
  rcases postConfig_registers hheld (fun r' heq => Option.some.inj heq ▸ .head _) hA with
    ⟨-, e', r', hrun, hheld'⟩ | ⟨-, res, e', hrun, hcrash | ⟨held', r', pf, hheld', hr', -⟩⟩
  · exact ⟨_, e', hrun, .inr ⟨_, r', none, 2, hheld', .head _, .inl (Nat.le_refl 2)⟩⟩
  · exact ⟨res, e', hrun, .inl hcrash⟩
  · exact ⟨res, e', hrun, .inr ⟨held', r', pf, 2, hheld', hr', .inl (Nat.le_refl 2)⟩⟩

theorem clean_step (h : Clean e) {A : Answers} (hA : A.registers = true) :
    (A.short = true ∧ ∃ e', runs (postConfig A) e = (.ok 1, e') ∧ Bound e') ∨
      (A.short = false ∧ EndsIn Spoilt (postConfig A) e) := by
  rcases postConfig_registers h nofun hA with
    ⟨hshort, e', r, hrun, hheld'⟩ | ⟨hshort, res, e', hrun, hcrash | ⟨held', r, pf, hheld', hr, hlost⟩⟩
  · exact .inl ⟨hshort, e', hrun, r, hheld'⟩
  · exact .inr ⟨hshort, res, e', hrun, .inl hcrash⟩
  · exact .inr ⟨hshort, res, e', hrun, .inr ⟨held', r, pf, 1, hheld', hr, .inr ⟨rfl, hlost rfl⟩⟩⟩

/-! ## Any number of attempts -/

theorem spoilt_run : ∀ (As : List Answers) {e : EngineConf}, Spoilt e → EndsIn Spoilt (attempts As) e := by
  intro As
  induction As with
  | nil => intro e h; exact ⟨_, e, rfl, .inr h⟩
  | cons A As ih =>
    intro e h
    refine (spoilt_step h A).bind fun status e' h' => (ih h').bind fun rest e'' h'' => ⟨_, e'', rfl, .inr h''⟩

/-- The first attempt decides how the run begins. -/
theorem attempts_cons {A : Answers} {As : List Answers} {status : Int} {e' : EngineConf}
    (h : runs (postConfig A) e = (.ok status, e')) {statuses : List Int} {e'' : EngineConf}
    (has : runs (attempts As) e' = (.ok statuses, e'')) :
    runs (attempts (A :: As)) e = (.ok (status :: statuses), e'') :=
  (runs_bind_ok h).trans (runs_bind_ok has)

theorem attempts_cons_spoilt {A : Answers} {As : List Answers} {status : Int} {e' : EngineConf}
    (h : runs (postConfig A) e = (.ok status, e')) (has : EndsIn Spoilt (attempts As) e') :
    EndsIn Spoilt (attempts (A :: As)) e := by
  obtain ⟨res, e'', hrun, hres⟩ := has.bind fun rest e'' h'' =>
    (⟨_, e'', rfl, .inr h''⟩ : EndsIn Spoilt (pure (status :: rest)) e'')
  exact ⟨res, e'', (runs_bind_ok h).trans hrun, hres⟩

theorem bound_run : ∀ (As : List Answers) {e : EngineConf}, Bound e →
    (As.filter Answers.registers = [] ∧ ∃ statuses e', runs (attempts As) e = (.ok statuses, e') ∧ Bound e') ∨
      (As.filter Answers.registers ≠ [] ∧ EndsIn Spoilt (attempts As) e) := by
  intro As
  induction As with
  | nil => intro e h; exact .inl ⟨rfl, _, e, rfl, h⟩
  | cons A As ih =>
    intro e h
    cases hA : A.registers with
    | true =>
      rw [List.filter_cons_of_pos hA]
      refine .inr ⟨nofun, (bound_step_again h hA).bind fun status e' h' => ?_⟩
      exact (spoilt_run As h').bind fun rest e'' h'' => ⟨_, e'', rfl, .inr h''⟩
    | false =>
      rw [List.filter_cons_of_neg (Bool.not_eq_true _ ▸ hA)]
      obtain ⟨r, hheld⟩ := h
      obtain ⟨e', hrun, hheld'⟩ := postConfig_unregistered hheld hA
      rcases ih ⟨r, hheld'⟩ with ⟨hnone, statuses, e'', has, hbound⟩ | ⟨hsome, hends⟩
      · exact .inl ⟨hnone, _, e'', attempts_cons hrun has, hbound⟩
      · exact .inr ⟨hsome, attempts_cons_spoilt hrun hends⟩

/-- From a new engine: no attempt registers, or one that is short does, or the
run is spoilt. -/
theorem clean_run : ∀ (As : List Answers) {e : EngineConf}, Clean e →
    (As.filter Answers.registers = [] ∧ ∃ statuses e', runs (attempts As) e = (.ok statuses, e') ∧ Clean e') ∨
      ((∃ A, As.filter Answers.registers = [A] ∧ A.short = true) ∧
        ∃ statuses e', runs (attempts As) e = (.ok statuses, e') ∧ Bound e') ∨
      (¬ Balancing As ∧ EndsIn Spoilt (attempts As) e) := by
  intro As
  induction As with
  | nil => intro e h; exact .inl ⟨rfl, _, e, rfl, h⟩
  | cons A As ih =>
    intro e h
    unfold Balancing
    cases hA : A.registers with
    | true =>
      rw [List.filter_cons_of_pos hA]
      rcases clean_step h hA with ⟨hshort, e', hrun, hbound⟩ | ⟨hshort, hends⟩
      · rcases bound_run As hbound with ⟨hnone, statuses, e'', has, hbound'⟩ | ⟨hsome, hends⟩
        · rw [hnone]
          exact .inr (.inl ⟨⟨A, rfl, hshort⟩, _, e'', attempts_cons hrun has, hbound'⟩)
        · refine .inr (.inr ⟨?_, attempts_cons_spoilt hrun hends⟩)
          rintro (hnil | ⟨B, hone, -⟩)
          · cases hnil
          · exact hsome (List.cons.inj hone).2
      · refine .inr (.inr ⟨?_, hends.bind fun status e' h' => ?_⟩)
        · rintro (hnil | ⟨B, hone, hB⟩)
          · cases hnil
          · rw [← (List.cons.inj hone).1, hshort] at hB
            cases hB
        · exact (spoilt_run As h').bind fun rest e'' h'' => ⟨_, e'', rfl, .inr h''⟩
    | false =>
      rw [List.filter_cons_of_neg (Bool.not_eq_true _ ▸ hA)]
      obtain ⟨e', hrun, hclean⟩ := postConfig_unregistered h hA
      rcases ih hclean with ⟨hnone, statuses, e'', has, hclean'⟩ | ⟨hone, statuses, e'', has, hbound⟩ | ⟨hnot, hends⟩
      · exact .inl ⟨hnone, _, e'', attempts_cons hrun has, hclean'⟩
      · exact .inr (.inl ⟨hone, _, e'', attempts_cons hrun has, hbound⟩)
      · exact .inr (.inr ⟨hnot, attempts_cons_spoilt hrun hends⟩)

/-! ## The end -/

/-- What `asp_net_stop` releases, whatever was released before. -/
def EngineConf.pointed (e : EngineConf) : List Nat := e.pCorRuntime.toList ++ e.pHostFactory.toList

theorem aspNetStop_runs (e : EngineConf) : ∃ e', runs aspNetStop e = (.ok (), e') ∧
    e'.refs = e.refs.releases e.pointed ∧ e'.pointed = e.pointed := by
  obtain ⟨pCorRuntime, pHostFactory, _⟩ := e
  cases pCorRuntime <;> cases pHostFactory <;> exact ⟨_, rfl, rfl, rfl⟩

/-- The pointers are still set, so each run releases the same again. -/
theorem stops_runs : ∀ (k : Nat) (e : EngineConf), ∃ e' later, runs (stops k) e = (.ok (), e') ∧
    e'.refs = e.refs.releases later ∧ ∀ r, later.count r = k * e.pointed.count r := by
  intro k
  induction k with
  | zero => intro e; exact ⟨e, [], rfl, rfl, fun r => (Nat.zero_mul _).symm⟩
  | succ k ih =>
    intro e
    obtain ⟨e₁, h₁, hrefs₁, hpointed⟩ := aspNetStop_runs e
    obtain ⟨e₂, later, h₂, hrefs₂, hcount⟩ := ih e₁
    refine ⟨e₂, later ++ e.pointed, (runs_bind_ok h₁).trans h₂, ?_, fun r => ?_⟩
    · rw [hrefs₂, hrefs₁, Ledger.releases_releases]
    · rw [List.count_append, hcount, hpointed, Nat.succ_mul]

/-- The pool runs the cleanups, and then the releases must be what was held. -/
theorem process_runs {As : List Answers} {statuses : List Int}
    (hrun : runs (attempts As) newEngine = (.ok statuses, e)) (h : Holding e held pc pf n) :
    ∃ e', runs (process As) newEngine = (.ok statuses, e') ∧
      (e'.refs.Balanced ↔ ∀ r < e.refs.acquired, n * (pc.toList ++ pf.toList).count r = held.count r) := by
  obtain ⟨e', later, hstops, hrefs, hcount⟩ := stops_runs e.cleanups e
  have hget : runs (get : EngineM EngineConf) e = (.ok e, e) := rfl
  refine ⟨e', ?_, ?_⟩
  · unfold process
    rw [runs_bind_ok hrun, runs_bind_ok hget, runs_bind_ok hstops]
    rfl
  · rw [hrefs, h.owes.balanced_iff later]
    refine forall₂_congr fun r _ => ?_
    rw [hcount, EngineConf.pointed, h.runtime, h.factory, h.cleanups]

theorem process_spoilt {As : List Answers} (h : EndsIn Spoilt (attempts As) newEngine) :
    (runs (process As) newEngine).1 = .error .accessViolation ∨ ¬ (runs (process As) newEngine).2.refs.Balanced := by
  obtain ⟨res, e, hrun, hres⟩ := h
  cases res with
  | error x =>
    unfold process
    rw [runs_bind_error hrun]
    rcases hres with hcrash | ⟨held, r, pf, n, hheld, hr, -⟩
    · exact .inl hcrash
    · exact .inr (hheld.owes.not_balanced hr)
  | ok statuses =>
    obtain ⟨held, r, pf, n, hheld, hr, hwhy⟩ := hres.resolve_left nofun
    obtain ⟨e', hprocess, hbalanced⟩ := process_runs hrun hheld
    rw [hprocess]
    refine .inr fun hb => ?_
    have hall := hbalanced.mp hb
    rcases hwhy with htwice | ⟨rfl, o, ho, hor, hpf⟩
    · -- the runtime is released at least twice
      obtain ⟨hlt, hone, -⟩ := hheld.owes.of_mem hr
      have hcount := hall r hlt
      rw [hone, List.count_append, Option.toList_some, List.count_singleton_self] at hcount
      have := Nat.mul_le_mul htwice (Nat.le_add_right 1 (pf.toList.count r))
      omega
    · -- nothing releases `o`
      obtain ⟨hlt, hone, -⟩ := hheld.owes.of_mem ho
      have hcount := hall o hlt
      have hnone : ((some r).toList ++ pf.toList).count o = 0 := by
        refine List.count_eq_zero.mpr fun hm => ?_
        rcases List.mem_append.mp hm with hm | hm
        · exact hor (List.mem_singleton.mp hm)
        · exact hpf (Option.mem_toList.mp hm)
      omega

/-! ## The property and its condition -/

theorem balancing_run {As : List Answers} (h : Balancing As) :
    ∃ statuses e held pc n, runs (attempts As) newEngine = (.ok statuses, e) ∧ Holding e held pc none n ∧
      ∀ r, n * pc.toList.count r = held.count r := by
  rcases clean_run As holding_new with ⟨-, statuses, e, hrun, hclean⟩ | ⟨-, statuses, e, hrun, r, hheld⟩ | ⟨hnot, -⟩
  · exact ⟨statuses, e, [], none, 0, hrun, hclean, fun _ => rfl⟩
  · exact ⟨statuses, e, [r], some r, 1, hrun, hheld, fun _ => Nat.one_mul _⟩
  · exact absurd h hnot

theorem Balancing.of_append {done rest : List Answers} (h : Balancing (done ++ rest)) : Balancing done := by
  unfold Balancing at *
  rw [List.filter_append] at h
  rcases h with hnone | ⟨A, hone, hshort⟩
  · exact .inl (List.append_eq_nil_iff.mp hnone).1
  · rcases List.append_eq_singleton_iff.mp hone with ⟨hnil, -⟩ | ⟨hsingle, -⟩
    · exact .inl hnil
    · exact .inr ⟨A, hsingle, hshort⟩

/-- The attempt that registers is the first one, and short. -/
theorem Balancing.registers {done rest : List Answers} {A : Answers} (h : Balancing (done ++ A :: rest))
    (hA : A.registers = true) : done.filter Answers.registers = [] ∧ A.short = true := by
  unfold Balancing at h
  rw [List.filter_append, List.filter_cons_of_pos hA] at h
  rcases h with hnone | ⟨B, hone, hshort⟩
  · cases (List.append_eq_nil_iff.mp hnone).2
  · rcases List.append_eq_singleton_iff.mp hone with ⟨hnil, hsingle⟩ | ⟨-, hnil⟩
    · rw [(List.cons.inj hsingle).1]; exact ⟨hnil, hshort⟩
    · cases hnil

/-- Every attempt that tries to start the engine fails. -/
theorem balancing_nonzero {As : List Answers} (h : Balancing As) {done rest : List Answers} {A : Answers}
    (has : As = done ++ A :: rest) {statuses : List Int} {e e' : EngineConf} {status : Int}
    (hdone : runs (attempts done) newEngine = (.ok statuses, e)) (hA : runs (postConfig A) e = (.ok status, e')) :
    status ≠ 0 := by
  subst has
  obtain ⟨e₁, h₁⟩ : ∃ e₁, runs (postConfig A) e = (.ok 1, e₁) := by
    rcases clean_run done holding_new with
      ⟨-, statuses₀, e₀, h₀, hclean⟩ | ⟨⟨B, hB, -⟩, statuses₀, e₀, h₀, r, hheld⟩ | ⟨hnot, -⟩
    · cases hdone.symm.trans h₀
      cases hregisters : A.registers with
      | false =>
        obtain ⟨e₁, h₁, -⟩ := postConfig_unregistered hclean hregisters
        exact ⟨e₁, h₁⟩
      | true =>
        rcases clean_step hclean hregisters with ⟨-, e₁, h₁, -⟩ | ⟨hlong, -⟩
        · exact ⟨e₁, h₁⟩
        · rw [(h.registers hregisters).2] at hlong
          cases hlong
    · cases hdone.symm.trans h₀
      cases hregisters : A.registers with
      | false =>
        obtain ⟨e₁, h₁, -⟩ := postConfig_unregistered hheld hregisters
        exact ⟨e₁, h₁⟩
      | true =>
        rw [(h.registers hregisters).1] at hB
        cases hB
    · exact absurd h.of_append hnot
  cases hA.symm.trans h₁
  exact Int.one_ne_zero

theorem engine_balanced_iff (As : List Answers) : EngineBalanced As ↔ Balancing As := by
  constructor
  · intro h
    rcases clean_run As holding_new with ⟨hnone, -⟩ | ⟨hone, -⟩ | ⟨-, hends⟩
    · exact .inl hnone
    · exact .inr hone
    · rcases process_spoilt hends with hcrash | hnot
      · exact absurd hcrash h.no_null_call
      · exact absurd h.released_once hnot
  · intro h
    obtain ⟨statuses, e, held, pc, n, hrun, hheld, hcount⟩ := balancing_run h
    obtain ⟨e', hprocess, hbalanced⟩ := process_runs hrun hheld
    refine ⟨?_, ?_, fun done A rest has statuses e status e' hdone _ hA _ => balancing_nonzero h has hdone hA⟩
    · rw [hprocess]; exact nofun
    · rw [hprocess]
      refine hbalanced.mpr fun r _ => ?_
      rw [Option.toList_none, List.append_nil]
      exact hcount r

/-- When every call succeeds, the object handle is never released. -/
def everyCallSucceeds : Answers where
  coInitialize := .ok
  coInitializeEx := .ok
  win32Windows := false
  getModuleFileNameA := true
  getModuleFileNameW := true
  clrCreateInstance := .handed
  getRuntime := .handed
  getInterface := .handed
  corBindToRuntimeEx := .handed
  start := true
  getDefaultDomain := .handed
  queryAppDomain := .handed
  bstrs := true
  createInstance := .handed
  unwrap := .handed
  queryHostFactory := .handed
  configure := .ok
  createHosts := []

theorem object_handle_lost : ¬ ∀ As : List Answers, EngineBalanced As := by
  intro h
  have hlost : 5 < (runs (process [everyCallSucceeds]) newEngine).2.refs.acquired ∧
      (runs (process [everyCallSucceeds]) newEngine).2.refs.released.count 5 = 0 := by decide +kernel
  have hone := (h [everyCallSucceeds]).released_once 5 hlost.1
  rw [hlost.2] at hone
  cases hone

/-! ## How the engine starts, for `Passes` -/

/-- The guard is about the factory alone. -/
theorem missing_eq {As : List Answers} {statuses : List Int} (hrun : runs (attempts As) newEngine = (.ok statuses, e)) :
    e.missing = e.pHostFactory.isNone := by
  unfold EngineConf.missing
  rcases clean_run As holding_new with
    ⟨-, statuses₀, e₀, h₀, hclean⟩ | ⟨-, statuses₀, e₀, h₀, r, hheld⟩ | ⟨-, res, e₀, h₀, hres⟩
  · cases hrun.symm.trans h₀
    rw [hclean.runtime, hclean.factory]
    rfl
  · cases hrun.symm.trans h₀
    rw [hheld.runtime, hheld.factory]
    rfl
  · cases hrun.symm.trans h₀
    obtain ⟨held, r, pf, n, hheld, -⟩ := hres.resolve_left nofun
    rw [hheld.runtime]
    rfl

theorem configureFactory_some {configure : Configure} {u : Unit} {e' : EngineConf}
    (h : runs (configureFactory configure) e = (.ok u, e')) : e'.pHostFactory.isSome = true := by
  obtain ⟨pCorRuntime, pHostFactory, _⟩ := e
  cases pHostFactory with
  | none => cases h
  | some f => cases configure <;> cases h; rfl

/-- A start that goes through leaves a factory. -/
theorem initAspEngine_some {A : Answers} {u : Unit} {e' : EngineConf} (h : runs (initAspEngine A) e = (.ok u, e')) :
    e'.pHostFactory.isSome = true := by
  obtain ⟨_, e₁, -, h⟩ := runs_bind_inv h
  obtain ⟨_, e₂, -, h⟩ := runs_bind_inv h
  obtain ⟨_, e₃, -, h⟩ := runs_bind_inv h
  obtain ⟨_, e₄, -, h⟩ := runs_bind_inv h
  obtain ⟨_, e₅, -, h⟩ := runs_bind_inv h
  obtain ⟨_, e₆, -, h⟩ := runs_bind_inv h
  obtain ⟨_, e₇, -, h⟩ := runs_bind_inv h
  obtain ⟨_, e₈, -, h⟩ := runs_bind_inv h
  exact configureFactory_some h

/-- What `Passes.startEngine` takes as data exists for each way the start goes
here: both go on or return 1, with a factory or without, and the lines it logs
are the last ones. -/
theorem startEngine_simulates (hmissing : e.missing = e.pHostFactory.isNone) {f : Option Factory}
    (hf : f.isSome = e.pHostFactory.isSome) {A : Answers} {started : Bool} {e' : EngineConf}
    (h : runs (startMissing A) e = (.ok started, e')) :
    ∃ how, match startEngine f how with
      | .ok _ => started = true ∧ e'.pHostFactory.isSome = true
      | .error (log, f') => started = false ∧ f'.isSome = e'.pHostFactory.isSome ∧ log <:+ e'.log := by
  cases hp : e.pHostFactory with
  | some p =>
    rw [hp] at hmissing hf
    rw [startMissing_started A hmissing] at h
    obtain ⟨f, rfl⟩ := Option.isSome_iff_exists.mp hf
    cases h
    exact ⟨.started, rfl, hp ▸ rfl⟩
  | none =>
    rw [hp] at hmissing hf
    obtain rfl : f = none := Option.isSome_eq_false_iff.mp hf |> Option.isNone_iff_eq_none.mp
    rw [startMissing_missing A hmissing] at h
    by_cases hco : A.coInit = .ok
    · match hinit : runs (initAspEngine A) e with
      | (.ok u, e₁) =>
        rw [startAspNet_started hco hinit] at h
        cases h
        exact ⟨.started, rfl, initAspEngine_some hinit⟩
      | (.error (.thrown c), e₁) =>
        rw [startAspNet_thrown hco hinit] at h
        cases h
        cases hp₁ : e₁.pHostFactory with
        | none => exact ⟨.failed c, rfl, rfl, List.suffix_append _ _⟩
        | some p => exact ⟨.unconfigured c, rfl, rfl, List.suffix_append _ _⟩
      | (.error .accessViolation, e₁) =>
        rw [startAspNet_crash hco hinit] at h
        cases h
    · rw [startAspNet_failed hco] at h
      cases h
      exact ⟨.coInitializeFailed, rfl, hp ▸ rfl, List.suffix_append _ _⟩

end

end ModAspNet.L6.Engine
