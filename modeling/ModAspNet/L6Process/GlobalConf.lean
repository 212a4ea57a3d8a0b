import Mathlib.Logic.Function.Basic
import ModAspNet.L3Router.Selection
import ModAspNet.L6Process.EngineLife
import ModAspNet.L6Process.HostKeys
import ModAspNet.L6Process.OneText
import ModAspNet.L6Process.RuntimeVersion

/-!
# All of `global_conf`

`Passes` has the records of `global_conf` and takes as data how the engine
starts; `Engine` has its pointers and takes as data how each `CreateHost` ends.
In the process both are one: the second half of `asp_net_post_config` calls the
factory through the pointer that the first half left, this time or in an earlier
pass.

* `Httpd`: the records, the pointers, and the factory behind each reference.
* `postConfig_seen`: one `asp_net_post_config` is one of `Passes` and one of
  `Engine`, with one status.
* `httpd_simulates`: so is every life of a process, or up to the pass that
  crashes as it starts the engine; no `CreateHost` goes through null.
* `engine_settled`: a factory that is there stays, and no later pass touches the
  engine.
-/
namespace ModAspNet.L6.GlobalConf

open ModAspNet.Core.Refs ModAspNet.L1.CStr ModAspNet.L2.Mount
open ModAspNet.L3.Handler (OK)
open ModAspNet.L4.HostFactory (Exn Choice Factory newFactory)
open ModAspNet.L6.Passes (Interop Process MountRecord newProcess callCreateHost setKey createFailed createdHost startEngine)
open ModAspNet.L6.Engine (Answers EngineConf Fault newEngine startMissing versionCmd attempts Alike loadedVersion
  everyCallSucceeds)
open ModAspNet.L6.OneText (utf8Interop)
open ModAspNet.L3.Selection (appMount)

/-! ## The state -/

/-- A process with all of `asp_net_conf_t`. `heap` has the `HostFactory` that a
reference stands for. The lines about the engine are in `engine`, those about
the hosts in `log`. -/
structure Httpd where
  pass : Nat
  global_conf : Option HostTable
  engine : EngineConf
  heap : Nat → Factory
  servers : List SrvConf
  mounts : List MountRecord
  creates : List (HostPtr × Except Exn Int)
  log : List Bytes

def newHttpd : Httpd := ⟨0, none, newEngine, fun _ => newFactory, [], [], [], []⟩

/-- What `Passes` has of it. -/
def Httpd.view (h : Httpd) : Process :=
  ⟨h.pass, h.global_conf, h.engine.pHostFactory.map h.heap, h.servers, h.mounts, h.creates⟩

/-- After a step that does not ask for the factory. -/
def Httpd.put (h : Httpd) (p : Process) : Httpd :=
  { h with pass := p.pass, global_conf := p.global_conf, servers := p.servers, mounts := p.mounts, creates := p.creates }

/-- `host->host_key = CreateHost(..)`; a call that raises stores nothing. -/
def stored (g : HostTable) (host : HostPtr) : Except Exn Int → HostTable
  | .ok k => setKey g host k
  | .error _ => g

/-- A call of `CreateHost` through `p`. -/
def Httpd.called (h : Httpd) (p : Nat) (host : HostPtr) (res : Except Exn Int) (f : Factory) (lines : List Bytes) :
    Httpd :=
  { h with
    global_conf := h.global_conf.map (stored · host res)
    heap := Function.update h.heap p f
    creates := h.creates ++ [(host, res)]
    log := h.log ++ lines }

/-! ## `asp_net_post_config` -/

/-- The loop over the records; a `CreateHost` through null is no C++ exception.
mirrors mod/mod_aspdotnet.cpp:777-851 -/
def createHosts (c : Interop) : List HostPtr → List (List Choice) → Httpd → Option (Except Fault Int × Httpd)
  | [], _, h => some (.ok OK, h)
  | host :: items, scripts, h =>
    match h.global_conf.bind fun g => g.records[host]? with
    | none => none
    | some r =>
      if r.host_key ≠ -1 then createHosts c items scripts h
      else match h.engine.pHostFactory with
        | none => some (.error .accessViolation, h)
        | some p => match scripts with
          | [] => none
          | choices :: scripts =>
            match callCreateHost c h.pass r choices (h.heap p) with
            | none => none
            | some (.error e, f) => some (.ok 1, h.called p host (.error e) f (createFailed r (c.caught (some e))))
            | some (.ok k, f) =>
              if k = -1 then some (.ok 1, h.called p host (.ok k) f (createFailed r (c.caught none)))
              else createHosts c items scripts (h.called p host (.ok k) f [createdHost r])

/-- mirrors mod/mod_aspdotnet.cpp:726-852 -/
def postConfig (c : Interop) (h : Httpd) (A : Answers) (order : List HostPtr) (scripts : List (List Choice)) :
    Option (Except Fault Int × Httpd) :=
  match h.global_conf with
  | none => none
  | some g =>
    match runs (startMissing A) h.engine with
    | (.error x, e) => some (.error x, { h with engine := e })
    | (.ok false, e) => some (.ok 1, { h with engine := e })
    | (.ok true, e) =>
      if order.isPerm (g.hosts.map Prod.snd) then createHosts c order scripts { h with engine := e } else none

/-! ## Lives -/

inductive Step where
  | preConfig (servers : Nat)
  | version (ver : CString)
  | mount (server : Nat) (a : MountArgs)
  | fixupVirtualHosts
  | postConfig (A : Answers) (order : List HostPtr) (scripts : List (List Choice))

/-- An `AspNetVersion` line. -/
def version (h : Httpd) (ver : CString) : Option Httpd :=
  h.global_conf.map fun _ => { h with engine := (runs (versionCmd ver) h.engine).2 }

/-- A step, with the status when it has one. -/
def step (c : Interop) (h : Httpd) : Step → Option (Except Fault (List Int) × Httpd)
  | .preConfig n => some (.ok [], h.put (Passes.preConfig h.view n))
  | .version ver => (version h ver).map fun h' => (.ok [], h')
  | .mount server a => (Passes.mount h.view server a).map fun p => (.ok [], h.put p)
  | .fixupVirtualHosts => some (.ok [], h.put (Passes.fixupVirtualHosts h.view))
  | .postConfig A order scripts => (postConfig c h A order scripts).map fun r => (r.1.map fun status => [status], r.2)

/-- The statuses of the passes; a crash is the end of the process. -/
def run (c : Interop) (h : Httpd) : List Step → Option (Except Fault (List Int) × Httpd)
  | [] => some (.ok [], h)
  | a :: as =>
    match step c h a with
    | none => none
    | some (.error x, h') => some (.error x, h')
    | some (.ok statuses, h') => (run c h' as).map fun r => (r.1.map (statuses ++ ·), r.2)

/-! ## The start of the engine -/

/-- What is thrown is caught, an access violation is not. -/
theorem startMissing_ends (A : Answers) (e : EngineConf) :
    ∃ e', runs (startMissing A) e = (.error .accessViolation, e') ∨
      ∃ started, runs (startMissing A) e = (.ok started, e') := by
  cases hmissing : e.missing with
  | false => exact ⟨e, .inr ⟨true, Engine.startMissing_started A hmissing⟩⟩
  | true =>
    rw [Engine.startMissing_missing A hmissing]
    by_cases hco : A.coInit = .ok
    · match hinit : runs (Engine.initAspEngine A) e with
      | (.ok u, e₁) => exact ⟨_, .inr ⟨_, Engine.startAspNet_started hco hinit⟩⟩
      | (.error (.thrown x), e₁) => exact ⟨_, .inr ⟨_, Engine.startAspNet_thrown hco hinit⟩⟩
      | (.error .accessViolation, e₁) => exact ⟨_, .inl (Engine.startAspNet_crash hco hinit)⟩
    · exact ⟨_, .inr ⟨_, Engine.startAspNet_failed hco e⟩⟩

/-- A factory that is there has a runtime, and no factory was called while there
is none. -/
structure Sound (h : Httpd) : Prop where
  missing : h.engine.missing = h.engine.pHostFactory.isNone
  unused : h.engine.pHostFactory = none → h.heap = fun _ => newFactory

section
variable {c : Interop} {h h' : Httpd} {A : Answers} {started : Bool} {e : EngineConf}

theorem startMissing_idle {p : Nat} (hs : Sound h) (hp : h.engine.pHostFactory = some p) (A : Answers) :
    runs (startMissing A) h.engine = (.ok true, h.engine) :=
  Engine.startMissing_started A (by rw [hs.missing, hp]; rfl)

/-- The start as `Passes` has it, with the factory behind the pointer. -/
theorem startMissing_view (hs : Sound h) (hstart : runs (startMissing A) h.engine = (.ok started, e)) :
    ∃ how, (started = true ∧ ∃ p, e.pHostFactory = some p ∧ startEngine h.view.factory how = .ok (h.heap p)) ∨
      (started = false ∧ ∃ lines,
        startEngine h.view.factory how = .error (lines, e.pHostFactory.map h.heap)) := by
  have hsome : h.view.factory.isSome = h.engine.pHostFactory.isSome := Option.isSome_map
  obtain ⟨how, hends⟩ := Engine.startEngine_simulates hs.missing hsome hstart
  refine ⟨how, ?_⟩
  cases hp : h.engine.pHostFactory with
  | some p =>
    -- nothing is started, and the pointer stays
    obtain ⟨hstarted, rfl⟩ := Prod.mk.inj ((startMissing_idle hs hp A).symm.trans hstart)
    cases hstarted
    have hview : h.view.factory = some (h.heap p) := by rw [Httpd.view, hp]; rfl
    exact .inl ⟨rfl, p, hp, by rw [hview]; rfl⟩
  | none =>
    have hview : h.view.factory = none := by rw [Httpd.view, hp]; rfl
    have hnew := hs.unused hp
    rw [hview] at hends ⊢
    match hout : startEngine none how with
    | .ok f =>
      rw [hout] at hends
      obtain ⟨p, hp'⟩ := Option.isSome_iff_exists.mp hends.2
      rw [hnew, Passes.startEngine_lists.2 f hout]
      exact .inl ⟨hends.1, p, hp', rfl⟩
    | .error (lines, f) =>
      rw [hout] at hends
      have hf := Passes.startEngine_lists.1 lines f hout
      obtain ⟨hstarted, hsame, -⟩ := hends
      refine .inr ⟨hstarted, lines, ?_⟩
      rw [hnew]
      cases f with
      | none => rw [Option.isSome_eq_false_iff.mp hsame.symm |> Option.isNone_iff_eq_none.mp]; rfl
      | some f =>
        obtain ⟨p, hp'⟩ := Option.isSome_iff_exists.mp hsame.symm
        rw [hp', show f = newFactory from hf]
        rfl

/-! ## The loop over the records -/

theorem called_view {p : Nat} {g : HostTable} (hp : h.engine.pHostFactory = some p) (hg : h.global_conf = some g)
    (host : HostPtr) (res : Except Exn Int) (f : Factory) (lines : List Bytes) :
    (h.called p host res f lines).view = { h.view with
      global_conf := some (stored g host res), factory := some f, creates := h.creates ++ [(host, res)] } := by
  have hpointer : (h.called p host res f lines).engine.pHostFactory = some p := hp
  have hheap : (h.called p host res f lines).heap p = f := Function.update_self ..
  have hrecords : (h.called p host res f lines).global_conf = some (stored g host res) :=
    congrArg (Option.map (stored · host res)) hg
  rw [Httpd.view, hpointer, hrecords, Option.map_some, hheap]
  rfl

/-- The call goes through the pointer. -/
theorem createHosts_cons {p : Nat} (hp : e.pHostFactory = some p) (created : Bool) (hosts : List Bool) :
    runs (Engine.createHosts (created :: hosts)) e =
      if created then runs (Engine.createHosts hosts) e else (.ok 1, e) := by
  obtain ⟨_, pHostFactory, _⟩ := e
  cases hp
  cases created <;> rfl

/-- With a factory the loop is that of `Passes` on the factory behind the
pointer, and that of `Engine`. -/
theorem createHosts_seen (c : Interop) {p : Nat} : ∀ {items : List HostPtr} {scripts : List (List Choice)} {h : Httpd}
    {g : HostTable} {res : Except Fault Int} {h' : Httpd}, h.engine.pHostFactory = some p → h.global_conf = some g →
      createHosts c items scripts h = some (res, h') →
      ∃ r created, Passes.createHosts c h.pass items scripts g (h.heap p) = some r ∧ res = .ok r.status ∧
        h'.view = { h.view with
          global_conf := some r.table, factory := some r.factory, creates := h.creates ++ r.creates } ∧
        h'.engine = h.engine ∧ runs (Engine.createHosts created) h.engine = (.ok r.status, h.engine) := by
  intro items
  induction items with
  | nil =>
    intro scripts h g res h' hp hg hrun
    cases hrun
    refine ⟨_, [], rfl, rfl, ?_, rfl, rfl⟩
    rw [Httpd.view, hp, hg, List.append_nil]
    rfl
  | cons host items ih =>
    intro scripts h g res h' hp hg hrun
    unfold createHosts at hrun
    unfold Passes.createHosts
    rw [hg, Option.bind_some] at hrun
    cases hrec : g.records[host]? with
    | none => rw [hrec] at hrun; cases hrun
    | some r =>
      rw [hrec] at hrun
      dsimp only at hrun ⊢
      split at hrun
      · rename_i hkey
        rw [if_pos hkey]
        exact ih hp hg hrun
      rename_i hkey
      rw [if_neg hkey]
      rw [hp] at hrun
      dsimp only at hrun
      cases scripts with
      | nil => cases hrun
      | cons choices scripts =>
        dsimp only at hrun ⊢
        cases hcall : callCreateHost c h.pass r choices (h.heap p) with
        | none => rw [hcall] at hrun; cases hrun
        | some out =>
          obtain ⟨x | k, f⟩ := out
          · rw [hcall] at hrun
            cases hrun
            exact ⟨_, [false], rfl, rfl, called_view hp hg .., rfl, createHosts_cons hp ..⟩
          rw [hcall] at hrun
          dsimp only at hrun ⊢
          split at hrun
          · rename_i hk
            rw [if_pos hk]
            cases hrun
            exact ⟨_, [false], rfl, rfl, called_view hp hg .., rfl, createHosts_cons hp ..⟩
          · rename_i hk
            rw [if_neg hk]
            let h₁ := h.called p host (.ok k) f [createdHost r]
            have hp₁ : h₁.engine.pHostFactory = some p := hp
            have hg₁ : h₁.global_conf = some (setKey g host k) := congrArg (Option.map (stored · host (.ok k))) hg
            have hheap : h₁.heap p = f := Function.update_self ..
            obtain ⟨rest, created, hrest, hres, hview, hengine, hhosts⟩ := ih hp₁ hg₁ hrun
            rw [hheap] at hrest
            refine ⟨_, true :: created, congrArg (Option.map _) hrest, hres, ?_, hengine, ?_⟩
            · rw [hview, called_view hp hg]
              simp only [h₁, Httpd.called, List.append_assoc, List.singleton_append]
            · exact (createHosts_cons hp ..).trans hhosts

/-! ## One `asp_net_post_config` -/

theorem postConfig_seen {order : List HostPtr} {scripts : List (List Choice)} {res : Except Fault Int} (hs : Sound h)
    (hpost : postConfig c h A order scripts = some (res, h')) :
    (∃ status how lines A', res = .ok status ∧
        Passes.postConfig c h.view how order scripts = some (status, lines, h'.view) ∧
        runs (Engine.postConfig A') h.engine = (.ok status, h'.engine) ∧
        (h'.engine.pHostFactory = none → h'.heap = fun _ => newFactory)) ∨
      (res = .error .accessViolation ∧
        ∃ e, runs (startMissing A) h.engine = (.error .accessViolation, e) ∧ h' = { h with engine := e }) := by
  unfold postConfig at hpost
  cases hg : h.global_conf with
  | none => rw [hg] at hpost; cases hpost
  | some g =>
    rw [hg] at hpost
    have hpasses : h.view.global_conf = some g := hg
    obtain ⟨e, hcrash | ⟨started, hstart⟩⟩ := startMissing_ends A h.engine
    · rw [hcrash] at hpost
      cases hpost
      exact .inr ⟨rfl, e, hcrash, rfl⟩
    obtain ⟨how, ⟨rfl, p, hp, hview⟩ | ⟨rfl, lines, hview⟩⟩ := startMissing_view hs hstart
    · rw [hstart] at hpost
      dsimp only at hpost
      split at hpost
      · rename_i hperm
        let h₁ : Httpd := { h with global_conf := some g, engine := e }
        have hp₁ : h₁.engine.pHostFactory = some p := hp
        have hg₁ : h₁.global_conf = some g := rfl
        obtain ⟨r, created, hloop, rfl, hview', hengine, hhosts⟩ := createHosts_seen c hp₁ hg₁ hpost
        refine .inl ⟨r.status, how, r.log, { A with createHosts := created }, rfl, ?_, ?_, fun hnone => ?_⟩
        · unfold Passes.postConfig
          rw [hpasses, hview]
          dsimp only
          rw [if_pos hperm, hview']
          exact congrArg (Option.map _) hloop
        · rw [hengine]
          exact (runs_bind_ok hstart).trans hhosts
        · rw [hengine] at hnone
          exact absurd (hp₁.symm.trans hnone) (Option.some_ne_none p)
      · cases hpost
    · rw [hstart] at hpost
      cases hpost
      refine .inl ⟨1, how, lines, A, rfl, ?_, runs_bind_ok hstart, fun _ => ?_⟩
      · unfold Passes.postConfig
        rw [hpasses, hview]
        rfl
      · -- with a factory there was nothing to start
        cases hp : h.engine.pHostFactory with
        | none => exact hs.unused hp
        | some p => cases (startMissing_idle hs hp A).symm.trans hstart

end

/-! ## Both views of a life -/

/-- A step of `Passes`, with the status when it has one. -/
def answered (c : Interop) (p : Process) : Passes.Step → Option (List Int × Process)
  | .postConfig how order scripts => (Passes.postConfig c p how order scripts).map fun r => ([r.1], r.2.2)
  | a => (Passes.step c p a).map fun p' => ([], p')

/-- A life of `Passes` with its statuses. -/
def observed (c : Interop) (p : Process) : List Passes.Step → Option (List Int × Process)
  | [] => some ([], p)
  | a :: as => (answered c p a).bind fun r => (observed c r.2 as).map fun o => (r.1 ++ o.1, o.2)

/-- The lines are the same, or both tell what was loaded. -/
def SameButVersion (line line' : Bytes) : Prop :=
  line = line' ∨ ∃ v v', line = loadedVersion v ∧ line' = loadedVersion v'

/-- The attempts of a life with these statuses; `AspNetVersion` is not in them. -/
def Attempted (statuses : List Int) (h : Httpd) : Prop :=
  ∃ As e, runs (attempts As) newEngine = (.ok statuses, e) ∧ Alike SameButVersion h.engine e

/-- What both views have of a life with these statuses, and the pointer of the
next pass's `CreateHost`. -/
structure Seen (c : Interop) (statuses : List Int) (h : Httpd) : Prop where
  passes : ∃ steps, observed c newProcess steps = some (statuses, h.view)
  attempted : Attempted statuses h
  pointer : ∀ A e, runs (startMissing A) h.engine = (.ok true, e) → ∃ p, e.pHostFactory = some p

/-- The life went well up to an `asp_net_post_config` that goes through null as
it starts the engine, ahead of the loop over the records. -/
def CrashedStarting (c : Interop) (steps : List Step) (h : Httpd) : Prop :=
  ∃ before A order scripts rest statuses h₁ e, steps = before ++ .postConfig A order scripts :: rest ∧
    run c newHttpd before = some (.ok statuses, h₁) ∧ Seen c statuses h₁ ∧
    runs (startMissing A) h₁.engine = (.error .accessViolation, e) ∧ h = { h₁ with engine := e }

/-- The invariant of a life. -/
structure Inv (statuses : List Int) (h : Httpd) : Prop where
  attempted : Attempted statuses h
  unused : h.engine.pHostFactory = none → h.heap = fun _ => newFactory

/-- Steps that go well from `h`, after `statuses`. -/
structure Went (c : Interop) (statuses : List Int) (h : Httpd) (as : List Step) (new : List Int) (h' : Httpd) : Prop where
  ran : run c h as = some (.ok new, h')
  passes : ∃ as', observed c h.view as' = some (new, h'.view)
  inv : Inv (statuses ++ new) h'

section
variable {c : Interop} {h h' : Httpd} {statuses : List Int}

theorem sameButVersion_refl (line : Bytes) : SameButVersion line line := .inl rfl

theorem observed_run : ∀ {as : List Passes.Step} {p p' : Process} {statuses : List Int},
    observed c p as = some (statuses, p') → Passes.run c p as = some p' := by
  intro as
  induction as with
  | nil => intro p p' statuses h; cases h; rfl
  | cons a as ih =>
    intro p p' statuses h
    obtain ⟨⟨ss, p₁⟩, ha, h⟩ := Option.bind_eq_some_iff.mp h
    obtain ⟨⟨rest, p₂⟩, has, heq⟩ := Option.map_eq_some_iff.mp h
    cases heq
    have hstep : Passes.step c p a = some p₁ := by
      cases a with
      | postConfig how order scripts =>
        obtain ⟨r, hr, heq⟩ := Option.map_eq_some_iff.mp ha
        cases heq
        exact Option.map_eq_some_iff.mpr ⟨r, hr, rfl⟩
      | mount server m =>
        obtain ⟨q, hq, heq⟩ := Option.map_eq_some_iff.mp ha
        cases heq
        exact hq
      | preConfig n => cases ha; rfl
      | fixupVirtualHosts => cases ha; rfl
    unfold Passes.run
    rw [hstep]
    exact ih has

theorem observed_append {bs : List Passes.Step} {later : List Int} {p' : Process} : ∀ {as : List Passes.Step}
    {p p₁ : Process} {statuses : List Int}, observed c p as = some (statuses, p₁) →
      observed c p₁ bs = some (later, p') → observed c p (as ++ bs) = some (statuses ++ later, p') := by
  intro as
  induction as with
  | nil => intro p p₁ statuses h hbs; cases h; exact hbs
  | cons a as ih =>
    intro p p₁ statuses h hbs
    obtain ⟨r, ha, h⟩ := Option.bind_eq_some_iff.mp h
    obtain ⟨o, has, heq⟩ := Option.map_eq_some_iff.mp h
    cases heq
    refine Option.bind_eq_some_iff.mpr ⟨r, ha, Option.map_eq_some_iff.mpr ⟨_, ih has hbs, ?_⟩⟩
    rw [List.append_assoc]

theorem attempts_snoc {A : Answers} {status : Int} {e' : EngineConf} : ∀ {As : List Answers} {e e₁ : EngineConf}
    {statuses : List Int}, runs (attempts As) e = (.ok statuses, e₁) → runs (Engine.postConfig A) e₁ = (.ok status, e') →
      runs (attempts (As ++ [A])) e = (.ok (statuses ++ [status]), e') := by
  intro As
  induction As with
  | nil =>
    intro e e₁ statuses h hA
    cases h
    exact Engine.attempts_cons hA rfl
  | cons B As ih =>
    intro e e₁ statuses h hA
    obtain ⟨s, e₂, hB, h⟩ := runs_bind_inv h
    obtain ⟨rest, e₃, has, h⟩ := runs_bind_inv h
    cases h
    exact Engine.attempts_cons hB (ih has hA)

/-! ## One step -/

theorem Inv.sound (hi : Inv statuses h) : Sound h := by
  obtain ⟨As, e, hrun, halike⟩ := hi.attempted
  exact ⟨by rw [halike.missing, Engine.missing_eq hrun, halike.factory], hi.unused⟩

/-- One attempt more, as it goes without the directives. -/
theorem Attempted.attempt (ha : Attempted statuses h) {A : Answers} {status : Int}
    (hA : runs (Engine.postConfig A) h.engine = (.ok status, h'.engine)) : Attempted (statuses ++ [status]) h' := by
  obtain ⟨As, e, hrun, halike⟩ := ha
  have hblind := Engine.blind_postConfig sameButVersion_refl (A := A) (fun _ v v' => .inr ⟨v, v', rfl, rfl⟩) _ _ halike
  rw [hA] at hblind
  exact ⟨As ++ [A], (runs (Engine.postConfig A) e).2, attempts_snoc hrun (Prod.ext hblind.1.symm rfl), hblind.2⟩

/-- A step that leaves the engine alone has no status. -/
theorem Inv.put (hi : Inv statuses h) (p : Process) : Inv (statuses ++ []) (h.put p) := by
  rw [List.append_nil]
  exact ⟨hi.attempted, hi.unused⟩

theorem inv_step {a : Step} {res : Except Fault (List Int)} (hi : Inv statuses h) (hstep : step c h a = some (res, h')) :
    (∃ new a', res = .ok new ∧ observed c h.view a' = some (new, h'.view) ∧ Inv (statuses ++ new) h') ∨
      (res = .error .accessViolation ∧ ∃ A order scripts e, a = .postConfig A order scripts ∧
        runs (startMissing A) h.engine = (.error .accessViolation, e) ∧ h' = { h with engine := e }) := by
  cases a with
  | preConfig n =>
    cases hstep
    exact .inl ⟨[], [.preConfig n], rfl, rfl, hi.put _⟩
  | version ver =>
    obtain ⟨h₁, hver, heq⟩ := Option.map_eq_some_iff.mp hstep
    obtain ⟨g, -, rfl⟩ := Option.map_eq_some_iff.mp hver
    cases heq
    obtain ⟨As, e, hrun, halike⟩ := hi.attempted
    refine .inl ⟨[], [], rfl, rfl, ?_⟩
    rw [List.append_nil]
    exact ⟨⟨As, e, hrun, halike.runtime, halike.factory, halike.cleanups, halike.refs, halike.log⟩, hi.unused⟩
  | mount server m =>
    obtain ⟨p, hp, heq⟩ := Option.map_eq_some_iff.mp hstep
    cases heq
    obtain ⟨g, s, -, -, rfl⟩ := Passes.mount_eq hp
    refine .inl ⟨[], [.mount server m], rfl, ?_, hi.put _⟩
    have hanswer : answered c h.view (.mount server m) = some ([], _) := congrArg (Option.map _) hp
    unfold observed
    rw [hanswer]
    rfl
  | fixupVirtualHosts =>
    cases hstep
    rw [Passes.fixupVirtualHosts_eq]
    refine .inl ⟨[], [], rfl, rfl, hi.put _⟩
  | postConfig A order scripts =>
    obtain ⟨⟨out, h₁⟩, hpost, heq⟩ := Option.map_eq_some_iff.mp hstep
    cases heq
    rcases postConfig_seen hi.sound hpost with
      ⟨status, how, lines, A', rfl, hpasses, hengine, hunused⟩ | ⟨rfl, e, hcrash, rfl⟩
    · refine .inl ⟨[status], [.postConfig how order scripts], rfl, ?_, hi.attempted.attempt hengine, hunused⟩
      have hanswer : answered c h.view (.postConfig how order scripts) = some ([status], h₁.view) :=
        congrArg (Option.map _) hpasses
      unfold observed
      rw [hanswer]
      rfl
    · exact .inr ⟨rfl, A, order, scripts, e, rfl, hcrash, rfl⟩

/-! ## A whole life -/

theorem inv_new : Inv [] newHttpd := ⟨⟨[], newEngine, rfl, rfl, rfl, rfl, rfl, .nil⟩, fun _ => rfl⟩

theorem Inv.pointer (hi : Inv statuses h) (A : Answers) (e : EngineConf)
    (hstart : runs (startMissing A) h.engine = (.ok true, e)) : ∃ p, e.pHostFactory = some p := by
  obtain ⟨how, ⟨-, p, hp, -⟩ | ⟨hfalse, -⟩⟩ := startMissing_view hi.sound hstart
  · exact ⟨p, hp⟩
  · cases hfalse

theorem went_nil (hi : Inv statuses h) : Went c statuses h [] [] h :=
  ⟨rfl, ⟨[], rfl⟩, by rw [List.append_nil]; exact hi⟩

theorem Went.cons {a : Step} {a' : List Passes.Step} {h₁ : Httpd} {new later : List Int} {as : List Step}
    (hstep : step c h a = some (.ok new, h₁)) (hview : observed c h.view a' = some (new, h₁.view))
    (hrest : Went c (statuses ++ new) h₁ as later h') : Went c statuses h (a :: as) (new ++ later) h' where
  ran := by
    unfold run
    rw [hstep]
    exact congrArg (Option.map _) hrest.ran
  passes := hrest.passes.imp' (a' ++ ·) fun _ hviews => observed_append hview hviews
  inv := List.append_assoc .. ▸ hrest.inv

theorem inv_run : ∀ {as : List Step} {h : Httpd} {statuses : List Int} {res : Except Fault (List Int)},
    Inv statuses h → run c h as = some (res, h') →
      (∃ new, res = .ok new ∧ Went c statuses h as new h') ∨
        (res = .error .accessViolation ∧ ∃ before A order scripts rest new h₁ e,
          as = before ++ .postConfig A order scripts :: rest ∧ Went c statuses h before new h₁ ∧
          runs (startMissing A) h₁.engine = (.error .accessViolation, e) ∧ h' = { h₁ with engine := e }) := by
  intro as
  induction as with
  | nil =>
    intro h statuses res hi hrun
    cases hrun
    exact .inl ⟨[], rfl, went_nil hi⟩
  | cons a as ih =>
    intro h statuses res hi hrun
    unfold run at hrun
    match hstep : step c h a with
    | none => rw [hstep] at hrun; cases hrun
    | some (.error x, h₁) =>
      rw [hstep] at hrun
      cases hrun
      rcases inv_step hi hstep with ⟨new, a', hok, -⟩ | ⟨hx, A, order, scripts, e, rfl, hcrash, rfl⟩
      · cases hok
      · cases hx
        exact .inr ⟨rfl, [], A, order, scripts, as, [], h, e, rfl, went_nil hi, hcrash, rfl⟩
    | some (.ok new, h₁) =>
      rw [hstep] at hrun
      obtain ⟨⟨out, h₂⟩, hrest, heq⟩ := Option.map_eq_some_iff.mp hrun
      cases heq
      rcases inv_step hi hstep with ⟨new', a', hok, hview, hi₁⟩ | ⟨hx, -⟩
      · cases hok
        rcases ih hi₁ hrest with ⟨later, rfl, hwent⟩ |
          ⟨rfl, before, A, order, scripts, rest, later, h₃, e, rfl, hwent, hcrash, rfl⟩
        · exact .inl ⟨new ++ later, rfl, hwent.cons hstep hview⟩
        · exact .inr ⟨rfl, a :: before, A, order, scripts, rest, new ++ later, h₃, e, rfl, hwent.cons hstep hview,
            hcrash, rfl⟩
      · cases hx

theorem Went.seen {as : List Step} {new : List Int} (hwent : Went c [] newHttpd as new h) : Seen c new h :=
  ⟨hwent.passes, hwent.inv.attempted, hwent.inv.pointer⟩

/-- Every life of a process is one in both views, with the same statuses; or it
ends in an `asp_net_post_config` that goes through null as it starts the engine,
and is one in both views up to there. -/
theorem httpd_simulates (c : Interop) {steps : List Step} {res : Except Fault (List Int)} {h : Httpd}
    (hrun : run c newHttpd steps = some (res, h)) :
    (∃ statuses, res = .ok statuses ∧ Seen c statuses h) ∨
      (res = .error .accessViolation ∧ CrashedStarting c steps h) := by
  rcases inv_run inv_new hrun with ⟨new, hres, hwent⟩ |
    ⟨hres, before, A, order, scripts, rest, new, h₁, e, hsteps, hwent, hcrash, hend⟩
  · exact .inl ⟨new, hres, hwent.seen⟩
  · exact .inr ⟨hres, before, A, order, scripts, rest, new, h₁, e, hsteps, hwent.ran, hwent.seen, hcrash, hend⟩

/-! ## Once the factory is there -/

/-- The engine but for the version. -/
def Untouched (e e' : EngineConf) : Prop := ∃ v, e' = { e with cor_version := v }

theorem postConfig_settled {p : Nat} (hs : Sound h) (hp : h.engine.pHostFactory = some p) {A : Answers}
    {order : List HostPtr} {scripts : List (List Choice)} {res : Except Fault Int}
    (hpost : postConfig c h A order scripts = some (res, h')) : (∃ status, res = .ok status) ∧ h'.engine = h.engine := by
  unfold postConfig at hpost
  rw [startMissing_idle hs hp A] at hpost
  cases hg : h.global_conf with
  | none => rw [hg] at hpost; cases hpost
  | some g =>
    rw [hg] at hpost
    dsimp only at hpost
    split at hpost
    · let h₁ : Httpd := { h with global_conf := some g }
      have hp₁ : h₁.engine.pHostFactory = some p := hp
      have hg₁ : h₁.global_conf = some g := rfl
      obtain ⟨r, -, -, rfl, -, hengine, -⟩ := createHosts_seen c hp₁ hg₁ hpost
      exact ⟨⟨_, rfl⟩, hengine⟩
    · cases hpost

theorem step_settled {p : Nat} (hs : Sound h) (hp : h.engine.pHostFactory = some p) {a : Step}
    {res : Except Fault (List Int)} (hstep : step c h a = some (res, h')) :
    (∃ new, res = .ok new) ∧ Untouched h.engine h'.engine := by
  cases a with
  | preConfig n => cases hstep; exact ⟨⟨_, rfl⟩, _, rfl⟩
  | version ver =>
    obtain ⟨h₁, hver, heq⟩ := Option.map_eq_some_iff.mp hstep
    obtain ⟨g, -, rfl⟩ := Option.map_eq_some_iff.mp hver
    cases heq
    exact ⟨⟨_, rfl⟩, some ver.val, rfl⟩
  | mount server m =>
    obtain ⟨q, -, heq⟩ := Option.map_eq_some_iff.mp hstep
    cases heq
    exact ⟨⟨_, rfl⟩, _, rfl⟩
  | fixupVirtualHosts => cases hstep; exact ⟨⟨_, rfl⟩, _, rfl⟩
  | postConfig A order scripts =>
    obtain ⟨⟨out, h₁⟩, hpost, heq⟩ := Option.map_eq_some_iff.mp hstep
    cases heq
    obtain ⟨⟨status, rfl⟩, hengine⟩ := postConfig_settled hs hp hpost
    exact ⟨⟨_, rfl⟩, h.engine.cor_version, hengine⟩

theorem run_settled {p : Nat} : ∀ {as : List Step} {h : Httpd} {statuses : List Int} {res : Except Fault (List Int)},
    Inv statuses h → h.engine.pHostFactory = some p → run c h as = some (res, h') →
      (∃ new, res = .ok new) ∧ Untouched h.engine h'.engine := by
  intro as
  induction as with
  | nil => intro h statuses res hi hp hrun; cases hrun; exact ⟨⟨_, rfl⟩, _, rfl⟩
  | cons a as ih =>
    intro h statuses res hi hp hrun
    unfold run at hrun
    match hstep : step c h a with
    | none => rw [hstep] at hrun; cases hrun
    | some (out, h₁) =>
      obtain ⟨⟨new, rfl⟩, v, hengine⟩ := step_settled hi.sound hp hstep
      rw [hstep] at hrun
      obtain ⟨⟨out, h₂⟩, hrest, heq⟩ := Option.map_eq_some_iff.mp hrun
      cases heq
      rcases inv_step hi hstep with ⟨new', a', hok, -, hi₁⟩ | ⟨hx, -⟩
      · obtain ⟨⟨later, rfl⟩, v', hengine'⟩ := ih hi₁ (hengine ▸ hp) hrest
        refine ⟨⟨_, rfl⟩, v', ?_⟩
        rw [hengine', hengine]
      · cases hx

/-- In every life of a process: `asp_net_post_config` returns `OK` only when the
pointer is set and each record has a valid key in the factory behind it. Once
the pointer is set, no later pass crashes or touches the engine again, and the
keys stay those of the records' paths. -/
theorem engine_settled (c : Interop) {steps : List Step} {statuses : List Int} {h : Httpd}
    (hrun : run c newHttpd steps = some (.ok statuses, h)) :
    (∀ A order scripts h', postConfig c h A order scripts = some (.ok OK, h') →
      (∃ p, h'.engine.pHostFactory = some p) ∧ Passes.AllReady h'.view) ∧
    ∀ p, h.engine.pHostFactory = some p → ∀ later res h', run c h later = some (res, h') →
      (∃ new, res = .ok new) ∧ Untouched h.engine h'.engine ∧ Passes.KeysRight c h'.view ∧
        Passes.KeysKept h.view h'.view := by
  rcases inv_run inv_new hrun with ⟨new, hres, -, ⟨as', hview⟩, hi⟩ | ⟨hres, -⟩
  · have hkeys : Passes.KeysInv c h.view := (Passes.keysInv_run (Passes.keysInv_new c) (observed_run hview)).1
    refine ⟨fun A order scripts h' hpost => ?_, fun p hp later res h' hlater => ?_⟩
    · rcases postConfig_seen hi.sound hpost with ⟨status, how, lines, A', hok, hpasses, -⟩ | ⟨hcrash, -⟩
      · have hready := (Passes.keysInv_postConfig hkeys hpasses).2.2 (Except.ok.inj hok).symm
        obtain ⟨f, l, hf, -⟩ := id hready
        obtain ⟨p, hp, -⟩ := Option.map_eq_some_iff.mp hf
        exact ⟨⟨p, hp⟩, hready⟩
      · cases hcrash
    · obtain ⟨⟨later', rfl⟩, huntouched⟩ := run_settled hi hp hlater
      rcases inv_run hi hlater with ⟨new', -, -, ⟨bs, hviews⟩, -⟩ | ⟨hcrash, -⟩
      · obtain ⟨hkeys', hkept⟩ := Passes.keysInv_run hkeys (observed_run hviews)
        exact ⟨⟨_, rfl⟩, huntouched, hkeys'.right, hkept⟩
      · cases hcrash
  · cases hres

end

/-! ## One application -/

/-- `AspNetMount /app C:/app`, read. -/
def appRead : Option (Except Fault (List Int) × Httpd) :=
  run utf8Interop newHttpd [.preConfig 1, .version (cstr (lit "v1.1.4322")), .mount 0 appMount, .fixupVirtualHosts]

theorem appRead_isSome : appRead.isSome = true := by decide +kernel

theorem appRead_statuses : (appRead.get appRead_isSome).1.toOption = some [] := by decide +kernel

theorem ran_ok {α : Type} {o : Option (Except Fault α × Httpd)} {a : α} (ho : o.isSome = true)
    (ha : (o.get ho).1.toOption = some a) : o = some (.ok a, (o.get ho).2) := by
  obtain ⟨⟨res, h⟩, rfl⟩ := Option.isSome_iff_exists.mp ho
  cases res with
  | error x => cases ha
  | ok b => cases ha; rfl

def appPost : Option (Except Fault Int × Httpd) :=
  postConfig utf8Interop (appRead.get appRead_isSome).2 everyCallSucceeds [0] [List.replicate 12 .ok]

theorem appPost_isSome : appPost.isSome = true := by decide +kernel

theorem appPost_status : (appPost.get appPost_isSome).1.toOption = some OK := by decide +kernel

/-- The process that serves it, and one that has read its configuration again. -/
def appLife : Option (Except Fault (List Int) × Httpd) :=
  run utf8Interop newHttpd [.preConfig 1, .mount 0 appMount, .postConfig everyCallSucceeds [0] [List.replicate 12 .ok]]

theorem appLife_isSome : appLife.isSome = true := by decide +kernel

theorem appLife_statuses : (appLife.get appLife_isSome).1.toOption = some [OK] := by decide +kernel

def appAgain : Option (Except Fault (List Int) × Httpd) :=
  run utf8Interop (appLife.get appLife_isSome).2
    [.preConfig 1, .version (cstr (lit "v1.1.4322")), .mount 0 appMount, .postConfig everyCallSucceeds [0] []]

theorem appAgain_isSome : appAgain.isSome = true := by decide +kernel

theorem httpd_simulates_app : Seen utf8Interop [OK] (appLife.get appLife_isSome).2 := by
  rcases httpd_simulates utf8Interop (ran_ok appLife_isSome appLife_statuses) with ⟨statuses, hres, hseen⟩ | ⟨hcrash, -⟩
  · cases hres
    exact hseen
  · cases hcrash

theorem engine_settled_app :
    ((∃ p, (appPost.get appPost_isSome).2.engine.pHostFactory = some p) ∧
      Passes.AllReady (appPost.get appPost_isSome).2.view) ∧
    (∃ new, (appAgain.get appAgain_isSome).1 = .ok new) ∧
      Untouched (appLife.get appLife_isSome).2.engine (appAgain.get appAgain_isSome).2.engine := by
  have hpointer : ((appLife.get appLife_isSome).2.engine.pHostFactory).isSome = true := by decide +kernel
  obtain ⟨p, hp⟩ := Option.isSome_iff_exists.mp hpointer
  have hagain := (engine_settled utf8Interop (ran_ok appLife_isSome appLife_statuses)).2 p hp _ _ _
    (Option.some_get appAgain_isSome).symm
  exact ⟨(engine_settled utf8Interop (ran_ok appRead_isSome appRead_statuses)).1 _ _ _ _
    (ran_ok appPost_isSome appPost_status), hagain.1, hagain.2.1⟩

end ModAspNet.L6.GlobalConf
