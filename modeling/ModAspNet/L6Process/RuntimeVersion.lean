import Mathlib.Data.List.Forall2
import ModAspNet.Core.Relational
import ModAspNet.L6Process.Engine

/-!
# `AspNetVersion` decides nothing

`AspNetVersion` stores a version of the .NET framework in `global_conf`, where
once the binding read it. `init_clr_runtime` asks for a version of its own
instead, and writes that over the directive's when it gets a runtime. The only
reader that is left is the line which says what was loaded.

* `configPass`: one pass over the configuration, with its directives.
* `Alike`: two engines that differ in the version and in lines of the log.
* `initAspEngine_alike`: one attempt of each.
* `version_decides_nothing`: two lives of a process that differ in their
  directives only.
-/
namespace ModAspNet.L6.Engine

open ModAspNet.Core.Refs ModAspNet.L1.CStr

/-- mirrors mod/mod_aspdotnet.cpp:188-192 -/
def versionCmd (ver : CString) : EngineM Unit := modify fun e => { e with cor_version := some ver.val }

/-- A pass over the configuration: the `AspNetVersion` directives it has, and how
the calls of its `asp_net_post_config` go. -/
structure ConfigPass where
  versions : List CString
  answers : Answers

def configPass (p : ConfigPass) : EngineM Int := do
  p.versions.forM versionCmd
  postConfig p.answers

def configPasses : List ConfigPass → EngineM (List Int)
  | [] => pure []
  | p :: ps => do
    let status ← configPass p
    let statuses ← configPasses ps
    pure (status :: statuses)

/-- The passes, then the cleanups of the pool. -/
def life (ps : List ConfigPass) : EngineM (List Int) := do
  let statuses ← configPasses ps
  stops (← get).cleanups
  pure statuses

/-! ## Engines that differ in the version -/

/-- The same engine but for the version, and for lines of the log that are
related by `L`. -/
structure Alike (L : Bytes → Bytes → Prop) (e e' : EngineConf) : Prop where
  runtime : e.pCorRuntime = e'.pCorRuntime
  factory : e.pHostFactory = e'.pHostFactory
  cleanups : e.cleanups = e'.cleanups
  refs : e.refs = e'.refs
  log : List.Forall₂ L e.log e'.log

theorem Alike.missing {L : Bytes → Bytes → Prop} {e e' : EngineConf} (h : Alike L e e') : e.missing = e'.missing := by
  unfold EngineConf.missing
  rw [h.runtime, h.factory]

/-- Alike, and the lines that tell the version are related too. -/
def Telling (L : Bytes → Bytes → Prop) (e e' : EngineConf) : Prop :=
  Alike L e e' ∧ L (loadedVersion e.cor_version) (loadedVersion e'.cor_version)

section
variable {L : Bytes → Bytes → Prop}

/-- The program does the same to engines that are alike. -/
def Blind (L : Bytes → Bytes → Prop) {α : Type} (p : EngineM α) : Prop := Relates (Alike L) p p (Alike L)

/-! ## The parts of an attempt -/

theorem blind_through (p : Option Nat) : Blind L (through p) := by
  cases p with
  | none => exact relates_throw _
  | some r => exact relates_pure _

/-- The runtime is called, whichever it is. -/
theorem blind_runtime {α : Type} {f : Nat → EngineM α} (hf : ∀ r, Blind L (f r)) :
    Blind L (do let r ← through (← get).pCorRuntime; f r) :=
  relates_get fun e e' h => by
    rw [h.runtime]
    exact (blind_through e'.pCorRuntime).seq hf

theorem blind_release (p : Option Nat) : Blind L (release p) :=
  (blind_through p).seq fun r => relates_modify fun _ _ h =>
    ⟨h.runtime, h.factory, h.cleanups, congrArg (·.release r) h.refs, h.log⟩

theorem blind_releaseIfSet (p : Option Nat) : Blind L (releaseIfSet p) := by
  cases p with
  | none => exact relates_pure _
  | some r => exact blind_release (some r)

theorem blind_receive (r : Reply) : Blind L (receive r) := by
  cases r with
  | handed =>
    intro e e' h
    refine ⟨?_, h.runtime, h.factory, h.cleanups, congrArg Ledger.acquire h.refs, h.log⟩
    show Except.ok (some e.refs.acquired) = Except.ok (some e'.refs.acquired)
    rw [h.refs]
  | _ => exact relates_pure _

theorem blind_setCorRuntime (p : Option Nat) : Blind L (setCorRuntime p) :=
  relates_modify fun _ _ h => ⟨rfl, h.factory, h.cleanups, h.refs, h.log⟩

theorem blind_setHostFactory (p : Option Nat) : Blind L (setHostFactory p) :=
  relates_modify fun _ _ h => ⟨h.runtime, rfl, h.cleanups, h.refs, h.log⟩

theorem blind_initRuntimeVersion (v : Bytes) : Blind L (initRuntimeVersion v) :=
  relates_modify fun _ _ h => ⟨h.runtime, h.factory, h.cleanups, h.refs, h.log⟩

theorem say_related {line line' : Bytes} (h : L line line') : Relates (Alike L) (say line) (say line') (Alike L) :=
  relates_modify fun _ _ he =>
    ⟨he.runtime, he.factory, he.cleanups, he.refs, List.rel_append he.log (.cons h .nil)⟩

theorem blind_initClr4Runtime (getRuntime getInterface : Reply) (pMetaHost : Option Nat) :
    Blind L (initClr4Runtime getRuntime getInterface pMetaHost) := by
  refine (blind_through pMetaHost).seq fun _ => (blind_receive getRuntime).seq fun pRuntimeInfo => ?_
  have hend : ∀ hr : Bool, Blind L (do releaseIfSet pRuntimeInfo; pure hr) :=
    fun hr => (blind_releaseIfSet pRuntimeInfo).seq fun _ => relates_pure hr
  dsimp only
  split
  · refine (blind_through pRuntimeInfo).seq fun _ => (blind_receive getInterface).seq fun p => ?_
    refine (blind_setCorRuntime p).seq fun _ => ?_
    split
    · exact (blind_initRuntimeVersion _).seq fun _ => (relates_pure _).seq hend
    · exact (relates_pure _).seq hend
  · exact (relates_pure _).seq hend

theorem blind_initClr2Runtime (corBindToRuntimeEx : Reply) : Blind L (initClr2Runtime corBindToRuntimeEx) := by
  refine (blind_receive corBindToRuntimeEx).seq fun p => (blind_setCorRuntime p).seq fun _ => ?_
  split
  · exact (blind_initRuntimeVersion _).seq fun _ => relates_pure _
  · exact relates_pure _

theorem blind_initClrRuntime (clrCreateInstance getRuntime getInterface corBindToRuntimeEx : Reply) :
    Blind L (initClrRuntime clrCreateInstance getRuntime getInterface corBindToRuntimeEx) := by
  refine (blind_receive clrCreateInstance).seq fun pMetaHost => ?_
  have hend : ∀ hr : Bool, Blind L (do releaseIfSet pMetaHost; pure hr) :=
    fun hr => (blind_releaseIfSet pMetaHost).seq fun _ => relates_pure hr
  dsimp only
  split
  · exact (blind_initClr4Runtime getRuntime getInterface pMetaHost).seq hend
  · exact (blind_initClr2Runtime corBindToRuntimeEx).seq hend

/-- A runtime that is bound tells its own version. -/
theorem bound_version (hL : ∀ line, L line line) {A : Answers} (hA : A.unbound = false) :
    let p := initClrRuntime A.clrCreateInstance A.getRuntime A.getInterface A.corBindToRuntimeEx
    Relates (Alike L) p p (Telling L) := by
  intro p e e' h
  obtain ⟨hres, halike⟩ := blind_initClrRuntime A.clrCreateInstance A.getRuntime A.getInterface A.corBindToRuntimeEx e e' h
  refine ⟨hres, halike, ?_⟩
  have hsame : (runs p e).2.cor_version = (runs p e').2.cor_version := by
    simp only [p]
    unfold Answers.unbound at hA
    cases hclr : A.clrCreateInstance with
    | null => rw [hclr] at hA; cases hA
    | failed =>
      have hbind : A.corBindToRuntimeEx = .handed := by simpa [hclr] using hA
      rw [hbind]
      rfl
    | handed =>
      obtain ⟨hget, hinterface⟩ : A.getRuntime = .handed ∧ A.getInterface = .handed := by simpa [hclr] using hA
      rw [hget, hinterface]
      rfl
  rw [hsame]
  exact hL _

/-! ## An attempt -/

section
variable (hL : ∀ line, L line line)
include hL

theorem blind_say (line : Bytes) : Blind L (say line) := say_related (hL line)

theorem blind_raiseError (line : Bytes) : Blind L (raiseError line) := (blind_say hL line).seq fun _ => relates_throw _

theorem blind_check (r : Reply) (failed null : Bytes) : Blind L (check r failed null) := by
  cases r with
  | failed => exact blind_raiseError hL failed
  | null => exact blind_raiseError hL null
  | handed => exact relates_pure _

theorem blind_startRuntime (start : Bool) : Blind L (startRuntime start) := by
  refine blind_runtime fun _ => ?_
  cases start with
  | true => exact blind_say hL _
  | false => exact blind_raiseError hL _

theorem blind_defaultDomain (getDefaultDomain queryAppDomain : Reply) :
    Blind L (defaultDomain getDefaultDomain queryAppDomain) := by
  refine blind_runtime fun _ => (blind_receive getDefaultDomain).seq fun pAppDomainIUnk => ?_
  refine (blind_check hL getDefaultDomain _ _).seq fun _ => (blind_through pAppDomainIUnk).seq fun _ => ?_
  refine (blind_receive queryAppDomain).seq fun pDefaultDomain => (blind_release pAppDomainIUnk).seq fun _ => ?_
  exact (blind_check hL queryAppDomain _ _).seq fun _ => (blind_say hL _).seq fun _ => relates_pure pDefaultDomain

theorem blind_objectHandle (pDefaultDomain : Option Nat) (bstrs : Bool) (createInstance : Reply) :
    Blind L (objectHandle pDefaultDomain bstrs createInstance) := by
  cases bstrs with
  | false => exact fun _ _ h => ⟨rfl, h⟩
  | true =>
    refine (blind_through pDefaultDomain).seq fun _ => (blind_receive createInstance).seq fun pObjHandle => ?_
    refine (blind_release pDefaultDomain).seq fun _ => (blind_check hL createInstance _ _).seq fun _ => ?_
    exact relates_pure pObjHandle

theorem blind_hostFactory (pObjHandle : Option Nat) (unwrap queryHostFactory : Reply) :
    Blind L (hostFactory pObjHandle unwrap queryHostFactory) := by
  refine (blind_through pObjHandle).seq fun _ => (blind_receive unwrap).seq fun vHostFactory => ?_
  refine (blind_check hL unwrap _ _).seq fun _ => (blind_through vHostFactory).seq fun _ => ?_
  refine (blind_receive queryHostFactory).seq fun p => (blind_setHostFactory p).seq fun _ => ?_
  refine (blind_release vHostFactory).seq fun _ => ?_
  split
  · exact (blind_raiseError hL _).seq fun _ => blind_say hL _
  · exact blind_say hL _

theorem blind_configureFactory (configure : Configure) : Blind L (configureFactory configure) := by
  refine relates_get fun e e' h => ?_
  rw [h.factory]
  refine (blind_through e'.pHostFactory).seq fun _ => ?_
  cases configure with
  | ok => exact blind_say hL _
  | failed => exact blind_raiseError hL _
  | raised desc => exact relates_throw _

theorem blind_createFactory (A : Answers) : Blind L (createFactory A) :=
  (blind_startRuntime hL _).seq fun _ => (blind_defaultDomain hL _ _).seq fun pDefaultDomain =>
    (blind_objectHandle hL pDefaultDomain _ _).seq fun pObjHandle =>
      (blind_hostFactory hL pObjHandle _ _).seq fun _ => blind_configureFactory hL _

theorem blind_lockModule (A : Answers) : Blind L (lockModule A) := by
  unfold lockModule aspModuleLock98 aspModuleLock
  repeat' split
  all_goals first | exact relates_pure _ | exact blind_raiseError hL _

theorem blind_registerStop : Blind L registerStop := by
  refine Relates.seq (relates_modify fun e e' h => ?_) fun _ => blind_say hL _
  exact ⟨h.runtime, h.factory, congrArg (· + 1) h.cleanups, h.refs, h.log⟩

/-- Only an attempt that binds nothing may show the version. -/
theorem blind_initAspEngine {A : Answers}
    (hA : A.unbound = true → ∀ v v', L (loadedVersion v) (loadedVersion v')) : Blind L (initAspEngine A) := by
  have hbinding : let p := initClrRuntime A.clrCreateInstance A.getRuntime A.getInterface A.corBindToRuntimeEx
      Relates (Alike L) p p (Telling L) := by
    cases hun : A.unbound with
    | false => exact bound_version hL hun
    | true => exact (blind_initClrRuntime _ _ _ _).weaken fun e e' h => ⟨h, hA hun _ _⟩
  have hloaded : Relates (Telling L) sayLoaded sayLoaded (Alike L) :=
    relates_get fun e e' h => (say_related h.2).strengthen fun _ _ => And.left
  refine (blind_lockModule hL A).seq fun _ => (blind_registerStop hL).seq fun _ => ?_
  refine hbinding.bind (fun _ => ?_) fun _ _ => And.left
  exact hloaded.bind (fun _ => blind_createFactory hL A) fun _ _ => id

/-! ## A pass, and all passes -/

theorem blind_startAspNet {A : Answers}
    (hA : A.unbound = true → ∀ v v', L (loadedVersion v) (loadedVersion v')) : Blind L (startAspNet A) := by
  unfold startAspNet
  split
  · refine ((blind_initAspEngine hL hA).seq fun _ => relates_pure true).tryCatch fun x => ?_
    cases x with
    | thrown c => exact (relates_forM (blind_say hL) _).seq fun _ => relates_pure false
    | accessViolation => exact relates_throw _
  · exact (blind_say hL _).seq fun _ => relates_pure false

omit hL in
theorem blind_createHosts (hosts : List Bool) : Blind L (createHosts hosts) := by
  induction hosts with
  | nil => exact relates_pure 0
  | cons created hosts ih =>
    refine relates_get fun e e' h => ?_
    rw [h.factory]
    refine (blind_through e'.pHostFactory).seq fun _ => ?_
    cases created with
    | true => exact ih
    | false => exact relates_pure 1

theorem blind_startMissing {A : Answers}
    (hA : A.unbound = true → ∀ v v', L (loadedVersion v) (loadedVersion v')) : Blind L (startMissing A) := by
  refine relates_get fun e e' h => ?_
  rw [h.missing]
  split
  · exact blind_startAspNet hL hA
  · exact relates_pure true

theorem blind_postConfig {A : Answers}
    (hA : A.unbound = true → ∀ v v', L (loadedVersion v) (loadedVersion v')) : Blind L (postConfig A) := by
  refine (blind_startMissing hL hA).seq fun started => ?_
  cases started with
  | true => exact blind_createHosts A.createHosts
  | false => exact relates_pure 1

end

/-! ## A life -/

theorem aspNetStop_blind : Blind L aspNetStop := by
  refine relates_get fun e e' h => ?_
  rw [h.runtime, h.factory]
  dsimp only
  cases e'.pHostFactory with
  | none =>
    cases e'.pCorRuntime with
    | none => exact relates_pure ()
    | some r => exact (blind_through _).seq fun _ => blind_release _
  | some f =>
    refine (blind_through _).seq fun _ => (blind_release _).seq fun _ => ?_
    cases e'.pCorRuntime with
    | none => exact relates_pure ()
    | some r => exact (blind_through _).seq fun _ => blind_release _

theorem blind_stops : ∀ n : Nat, Blind L (stops n)
  | 0 => relates_pure ()
  | n + 1 => aspNetStop_blind.seq fun _ => blind_stops n

/-- Directives store a version, and that is all. -/
theorem versions_runs : ∀ (versions : List CString) (e : EngineConf),
    ∃ v, runs (versions.forM versionCmd) e = (.ok (), { e with cor_version := v })
  | [], e => ⟨e.cor_version, rfl⟩
  | ver :: versions, e => by
    obtain ⟨v, h⟩ := versions_runs versions { e with cor_version := some ver.val }
    have hver : runs (versionCmd ver) e = (.ok (), { e with cor_version := some ver.val }) := rfl
    exact ⟨v, (runs_bind_ok hver).trans h⟩

/-- A pass with its directives, and one without. -/
theorem configPass_alike (hL : ∀ line, L line line) {p : ConfigPass}
    (hp : p.answers.unbound = true → ∀ v v', L (loadedVersion v) (loadedVersion v')) :
    Relates (Alike L) (configPass p) (postConfig p.answers) (Alike L) := by
  intro e e' h
  obtain ⟨v, hv⟩ := versions_runs p.versions e
  have hstored : Alike L { e with cor_version := v } e' := ⟨h.runtime, h.factory, h.cleanups, h.refs, h.log⟩
  unfold configPass
  rw [runs_bind_ok hv]
  exact blind_postConfig hL hp _ _ hstored

theorem configPasses_alike (hL : ∀ line, L line line) : ∀ ps : List ConfigPass,
    (∀ p ∈ ps, p.answers.unbound = true → ∀ v v', L (loadedVersion v) (loadedVersion v')) →
    Relates (Alike L) (configPasses ps) (attempts (ps.map ConfigPass.answers)) (Alike L)
  | [], _ => relates_pure []
  | p :: ps, hps =>
    (configPass_alike hL (hps p (List.mem_cons_self ..))).seq fun status =>
      (configPasses_alike hL ps fun q hq => hps q (List.mem_cons_of_mem _ hq)).seq fun statuses =>
        relates_pure (status :: statuses)

end

/-- The lines are the same, or both tell what was loaded and there is a pass
without a runtime. -/
def SameButLoaded (ps : List ConfigPass) (line line' : Bytes) : Prop :=
  line = line' ∨ (∃ p ∈ ps, p.answers.unbound = true) ∧
    ∃ v v', line = loadedVersion v ∧ line' = loadedVersion v'

/-- Every life of a process, with any directives in its passes, goes as it would
without them: the statuses or the crash, the pointers, each acquired and
released reference, the cleanups and the log. Only when no runtime was bound can
a line differ, the one on what was loaded. -/
theorem version_decides_nothing (ps : List ConfigPass) :
    (runs (life ps) newEngine).1 = (runs (process (ps.map ConfigPass.answers)) newEngine).1 ∧
      Alike (SameButLoaded ps) (runs (life ps) newEngine).2 (runs (process (ps.map ConfigPass.answers)) newEngine).2 := by
  have hsame : ∀ line, SameButLoaded ps line line := fun _ => .inl rfl
  have hpasses := configPasses_alike hsame ps fun p hp hun v v' => .inr ⟨⟨p, hp, hun⟩, v, v', rfl, rfl⟩
  refine hpasses.seq (fun statuses => relates_get fun e e' h => ?_) newEngine newEngine ⟨rfl, rfl, rfl, rfl, .nil⟩
  rw [h.cleanups]
  exact (blind_stops e'.cleanups).seq fun _ => relates_pure statuses

end ModAspNet.L6.Engine
