import ModAspNet.Core.Refs
import ModAspNet.L6Process.Passes

/-!
# Starting and stopping the engine

`asp_net_post_config` binds the .NET runtime, starts it and asks it for the
`HostFactory`, until it has both; `asp_net_stop` is registered with the process
pool by each attempt that gets that far, and gives both back. In between about
ten interfaces are acquired and released by hand, on paths that end at any call.

* `Answers`: how each call of an attempt goes. A call that hands over an
  interface may fail, succeed without one, or succeed with one reference.
* A method called through null is an access violation: `catch (...)` is for C++
  exceptions, so it ends the process.
* `Holding`: which references an engine owes, and which its pointers have.
* `postConfig_unregistered`, `postConfig_registers`: all an attempt can do to
  that, with one lemma for each part of `init_asp_engine` below them.
-/
namespace ModAspNet.L6.Engine

open ModAspNet.Core.Refs ModAspNet.L1.CStr
open ModAspNet.L6.Passes (Caught engineFailed)

/-! ## COM -/

/-- The outcome of a call that hands over an interface. -/
inductive Reply where
  | failed
  | null
  | handed
  deriving DecidableEq

def Reply.succeeded : Reply → Bool
  | .failed => false
  | _ => true

/-- `CoInitialize` and `CoInitializeEx`; `changedMode` is `RPC_E_CHANGED_MODE`. -/
inductive CoInit where
  | ok
  | changedMode
  | failed
  deriving DecidableEq

/-- `Configure` has a wrapper that raises what fails. -/
inductive Configure where
  | ok
  | failed
  | raised (desc : Option Bytes)
  deriving DecidableEq

/-- How the calls of one `asp_net_post_config` go; `bstrs`: the strings for
`CreateInstance` are allocated; `createHosts`: `CreateHost`, for each record
without a key. A call that is not reached has an answer nobody reads. -/
structure Answers where
  coInitialize : CoInit
  coInitializeEx : CoInit
  win32Windows : Bool
  getModuleFileNameA : Bool
  getModuleFileNameW : Bool
  clrCreateInstance : Reply
  getRuntime : Reply
  getInterface : Reply
  corBindToRuntimeEx : Reply
  start : Bool
  getDefaultDomain : Reply
  queryAppDomain : Reply
  bstrs : Bool
  createInstance : Reply
  unwrap : Reply
  queryHostFactory : Reply
  configure : Configure
  createHosts : List Bool

/-! ## The state -/

/-- What `global_conf` has of the engine, each pointer with the reference it
stands for; `cleanups` counts the registrations of `asp_net_stop`. -/
structure EngineConf where
  pCorRuntime : Option Nat
  pHostFactory : Option Nat
  cor_version : Option Bytes
  cleanups : Nat
  refs : Ledger
  log : List Bytes

def newEngine : EngineConf := ⟨none, none, none, 0, .empty, []⟩

inductive Fault where
  | thrown (c : Caught)
  | accessViolation

abbrev EngineM := Raising Fault EngineConf

def say (line : Bytes) : EngineM Unit := modify fun e => { e with log := e.log ++ [line] }

/-- A method is called through the pointer. -/
def through : Option Nat → EngineM Nat
  | none => throw .accessViolation
  | some r => pure r

/-- The out parameter of a call. -/
def receive : Reply → EngineM (Option Nat)
  | .handed => modifyGet fun e => (some e.refs.acquired, { e with refs := e.refs.acquire })
  | _ => pure none

/-- `p->Release()` -/
def release (p : Option Nat) : EngineM Unit := do
  let r ← through p
  modify fun e => { e with refs := e.refs.release r }

/-- `if (p != nullptr) p->Release();` -/
def releaseIfSet : Option Nat → EngineM Unit
  | none => pure ()
  | some r => release (some r)

def setCorRuntime (p : Option Nat) : EngineM Unit := modify fun e => { e with pCorRuntime := p }
def setHostFactory (p : Option Nat) : EngineM Unit := modify fun e => { e with pHostFactory := p }

/-- A line is logged, then `_com_raise_error(hr)`. -/
def raiseError (line : Bytes) : EngineM Unit := do
  say line
  throw (.thrown (.comError none))

/-- The two checks after a call: `FAILED(hr)`, and whether there is an interface. -/
def check (r : Reply) (failed null : Bytes) : EngineM Unit :=
  match r with
  | .failed => raiseError failed
  | .null => raiseError null
  | .handed => pure ()

/-! ## `asp_net_stop` -/

/-- The pointers keep their values. mirrors mod/mod_aspdotnet.cpp:270-289 -/
def aspNetStop : EngineM Unit := do
  let global_conf ← get
  match global_conf.pHostFactory with
  | none => pure ()
  | some f =>
    let _ ← through (some f)
    release (some f)
  match global_conf.pCorRuntime with
  | none => pure ()
  | some r =>
    let _ ← through (some r)
    release (some r)

/-! ## `init_asp_engine` -/

def lockFailed : Bytes :=
  lit "mod_aspdotnet: Failed to discover the full file path to mod_aspdotnet.so.  (Was it renamed?)"

/-- mirrors mod/mod_aspdotnet.cpp:291-307 -/
def aspModuleLock98 (getModuleFileNameA : Bool) : EngineM Unit :=
  if getModuleFileNameA then pure () else raiseError lockFailed

/-- mirrors mod/mod_aspdotnet.cpp:309-325 -/
def aspModuleLock (getModuleFileNameW : Bool) : EngineM Unit :=
  if getModuleFileNameW then pure () else raiseError lockFailed

/-- mirrors mod/mod_aspdotnet.cpp:327-333 -/
def initRuntimeVersion (runtimeVersion : Bytes) : EngineM Unit :=
  modify fun e => { e with cor_version := some runtimeVersion }

/-- The result is `SUCCEEDED(hr)`. mirrors mod/mod_aspdotnet.cpp:335-364 -/
def initClr4Runtime (getRuntime getInterface : Reply) (pMetaHost : Option Nat) : EngineM Bool := do
  let _ ← through pMetaHost
  let pRuntimeInfo ← receive getRuntime
  let hr ← if getRuntime.succeeded then do
      let _ ← through pRuntimeInfo
      setCorRuntime (← receive getInterface)
      if getInterface.succeeded then initRuntimeVersion (lit "v4.0.30319")
      pure getInterface.succeeded
    else pure false
  releaseIfSet pRuntimeInfo
  pure hr

/-- mirrors mod/mod_aspdotnet.cpp:366-389 -/
def initClr2Runtime (corBindToRuntimeEx : Reply) : EngineM Bool := do
  setCorRuntime (← receive corBindToRuntimeEx)
  if corBindToRuntimeEx.succeeded then initRuntimeVersion (lit "v2.0.50727")
  pure corBindToRuntimeEx.succeeded

/-- mirrors mod/mod_aspdotnet.cpp:391-412 -/
def initClrRuntime (clrCreateInstance getRuntime getInterface corBindToRuntimeEx : Reply) : EngineM Bool := do
  let pMetaHost ← receive clrCreateInstance
  let hr ← if clrCreateInstance.succeeded then initClr4Runtime getRuntime getInterface pMetaHost
    else initClr2Runtime corBindToRuntimeEx
  releaseIfSet pMetaHost
  pure hr

/-- mirrors mod/mod_aspdotnet.cpp:439-448 -/
def startRuntime (start : Bool) : EngineM Unit := do
  let _ ← through (← get).pCorRuntime
  if start then say (lit "mod_aspdotnet: Module started .NET CLR...")
  else raiseError (lit "mod_aspdotnet: Could not start the .NET CLR engine.")

/-- mirrors mod/mod_aspdotnet.cpp:450-486 -/
def defaultDomain (getDefaultDomain queryAppDomain : Reply) : EngineM (Option Nat) := do
  let _ ← through (← get).pCorRuntime
  let pAppDomainIUnk ← receive getDefaultDomain
  check getDefaultDomain
    (lit "mod_aspdotnet: Could not retrieve the .NET default application domain.")
    (lit "mod_aspdotnet: Could not retrieve the .NET default application domain's interface.")
  let _ ← through pAppDomainIUnk
  let pDefaultDomain ← receive queryAppDomain
  release pAppDomainIUnk
  check queryAppDomain
    (lit "mod_aspdotnet: Could not retrieve the .NET default application domain's _AppDomain interface.")
    (lit "mod_aspdotnet: Could not retrieve the .NET default application domain _AppDomain interface.")
  say (lit "mod_aspdotnet: Module initialized .NET default AppDomain...")
  pure pDefaultDomain

/-- mirrors mod/mod_aspdotnet.cpp:488-508 -/
def objectHandle (pDefaultDomain : Option Nat) (bstrs : Bool) (createInstance : Reply) : EngineM (Option Nat) := do
  -- `_bstr_t` raises `_com_error` when it gets no memory
  if !bstrs then throw (.thrown (.comError none))
  let _ ← through pDefaultDomain
  let pObjHandle ← receive createInstance
  release pDefaultDomain
  check createInstance
    (lit "mod_aspdotnet: Could not create the .NET interface for the Apache.Web.HostFactory.")
    (lit "mod_aspdotnet: Could not retrieve the .NET object for the Apache.Web.HostFactory.")
  pure pObjHandle

/-- mirrors mod/mod_aspdotnet.cpp:510-538 -/
def hostFactory (pObjHandle : Option Nat) (unwrap queryHostFactory : Reply) : EngineM Unit := do
  let _ ← through pObjHandle
  let vHostFactory ← receive unwrap
  check unwrap
    (lit "mod_aspdotnet: Could not unwrap the COM interface for the Apache.Web.HostFactory.")
    (lit "mod_aspdotnet: Could not retrieve the unknown COM interface for the Apache.Web.HostFactory.")
  let _ ← through vHostFactory
  setHostFactory (← receive queryHostFactory)
  -- VariantClear(&vHostFactory)
  release vHostFactory
  if !queryHostFactory.succeeded then
    raiseError (lit "mod_aspdotnet: Could not retrieve the COM interface for the Apache.Web.HostFactory.")
  say (lit "mod_aspdotnet: Module initialized HostFactory...")

/-- mirrors mod/mod_aspdotnet.cpp:540-551 -/
def configureFactory (configure : Configure) : EngineM Unit := do
  let _ ← through (← get).pHostFactory
  match configure with
  | .raised desc => throw (.thrown (.comError desc))
  | .failed => raiseError (lit "mod_aspdotnet: Could not correctly configure the Apache.Web.HostFactory.")
  | .ok => say (lit "mod_aspdotnet: HostFactory configuration complete.")

def loadedVersion (cor_version : Option Bytes) : Bytes :=
  lit "mod_aspdotnet: It has loaded version " ++ cor_version.getD (lit "(null)") ++ lit " of the .NET CLR engine."

/-- mirrors mod/mod_aspdotnet.cpp:439-551 -/
def createFactory (A : Answers) : EngineM Unit := do
  startRuntime A.start
  let pDefaultDomain ← defaultDomain A.getDefaultDomain A.queryAppDomain
  let pObjHandle ← objectHandle pDefaultDomain A.bstrs A.createInstance
  hostFactory pObjHandle A.unwrap A.queryHostFactory
  configureFactory A.configure

/-- mirrors mod/mod_aspdotnet.cpp:416-422 -/
def lockModule (A : Answers) : EngineM Unit :=
  if A.win32Windows then aspModuleLock98 A.getModuleFileNameA else aspModuleLock A.getModuleFileNameW

/-- `apr_pool_cleanup_register`, once for each attempt. mirrors mod/mod_aspdotnet.cpp:427-431 -/
def registerStop : EngineM Unit := do
  modify fun e => { e with cleanups := e.cleanups + 1 }
  say (lit "mod_aspdotnet: Module initialization commencing...")

/-- mirrors mod/mod_aspdotnet.cpp:435-437 -/
def sayLoaded : EngineM Unit := do say (loadedVersion (← get).cor_version)

/-- The `hr` of the binding is overwritten by that of `Start`.
mirrors mod/mod_aspdotnet.cpp:414-554 -/
def initAspEngine (A : Answers) : EngineM Unit := do
  lockModule A
  registerStop
  let _ ← initClrRuntime A.clrCreateInstance A.getRuntime A.getInterface A.corBindToRuntimeEx
  sayLoaded
  createFactory A

/-! ## `asp_net_post_config` -/

/-- `!global_conf->pCorRuntime || !global_conf->pHostFactory` -/
def EngineConf.missing (e : EngineConf) : Bool := e.pCorRuntime.isNone || e.pHostFactory.isNone

/-- The result of `CoInitialize`, or of `CoInitializeEx` in its place. -/
def Answers.coInit (A : Answers) : CoInit :=
  if A.coInitialize = .changedMode then A.coInitializeEx else A.coInitialize

/-- The part under the guard: `false` is `return 1`.
mirrors mod/mod_aspdotnet.cpp:738-774 -/
def startAspNet (A : Answers) : EngineM Bool :=
  if A.coInit = .ok then
    tryCatch (do initAspEngine A; pure true) fun
      | .thrown c => do
        (engineFailed c).forM say
        pure false
      | .accessViolation => throw .accessViolation
  else do
    say (lit "mod_aspdotnet: Failed to CoInitialize the threaded COM engine for .NET CLR interop!")
    pure false

/-- The calls of `CreateHost`; what the loop around them does and logs is in
`Passes.createHosts`. mirrors mod/mod_aspdotnet.cpp:777-848 -/
def createHosts : List Bool → EngineM Int
  | [] => pure 0
  | created :: hosts => do
    let _ ← through (← get).pHostFactory
    if created then createHosts hosts else pure 1

/-- mirrors mod/mod_aspdotnet.cpp:736-775 -/
def startMissing (A : Answers) : EngineM Bool := do
  if (← get).missing then startAspNet A else pure true

/-- mirrors mod/mod_aspdotnet.cpp:726-851 -/
def postConfig (A : Answers) : EngineM Int := do
  if ← startMissing A then createHosts A.createHosts else pure 1

/-! ## The life of a process -/

/-- The attempts, one after another, with their statuses. -/
def attempts : List Answers → EngineM (List Int)
  | [] => pure []
  | A :: As => do
    let status ← postConfig A
    let statuses ← attempts As
    pure (status :: statuses)

def stops : Nat → EngineM Unit
  | 0 => pure ()
  | n + 1 => do
    aspNetStop
    stops n

/-- The pool runs `asp_net_stop` once for each registration. -/
def process (As : List Answers) : EngineM (List Int) := do
  let statuses ← attempts As
  stops (← get).cleanups
  pure statuses

/-! ## What the answers come to -/

/-- `init_clr_runtime` gets no runtime host. -/
def Answers.unbound (A : Answers) : Bool :=
  match A.clrCreateInstance with
  | .failed => A.corBindToRuntimeEx != .handed
  | .null => true
  | .handed => A.getRuntime != .handed || A.getInterface != .handed

/-- No factory is created. -/
def Answers.uncreated (A : Answers) : Bool :=
  A.getDefaultDomain != .handed || A.queryAppDomain != .handed || !A.bstrs || A.createInstance != .handed ||
    A.unwrap != .handed || A.queryHostFactory != .handed

/-- The file name of the module is found. -/
def Answers.found (A : Answers) : Bool := if A.win32Windows then A.getModuleFileNameA else A.getModuleFileNameW

/-- COM is initialised and the module is found, so the cleanup is registered. -/
def Answers.registers (A : Answers) : Bool := A.coInit == .ok && A.found

/-- A call up to `CreateInstance` says no. -/
def Answers.cut (A : Answers) : Bool :=
  !A.start || A.getDefaultDomain != .handed || A.queryAppDomain != .handed || (A.bstrs && A.createInstance != .handed)

/-- The runtime is bound, and that is all. -/
def Answers.short (A : Answers) : Bool := !A.unbound && A.cut

/-! ## What is held -/

/-- What an engine owes and where its pointers are. -/
structure Holding (e : EngineConf) (held : List Nat) (runtime factory : Option Nat) (cleanups : Nat) : Prop where
  owes : Owes e.refs held
  runtime : e.pCorRuntime = runtime
  factory : e.pHostFactory = factory
  cleanups : e.cleanups = cleanups

section
variable {e : EngineConf} {held : List Nat} {pc pf : Option Nat} {n : Nat}

theorem holding_new : Holding newEngine [] none none 0 := ⟨owes_empty, rfl, rfl, rfl⟩

theorem raiseError_runs (h : Holding e held pc pf n) (line : Bytes) :
    ∃ e', runs (raiseError line) e = (.error (.thrown (.comError none)), e') ∧ Holding e' held pc pf n :=
  ⟨_, rfl, h.owes, h.runtime, h.factory, h.cleanups⟩

/-! ## The binding -/

/-- Without a runtime the pointer is null or what it was. -/
theorem initClrRuntime_runs (h : Holding e held pc pf n) (A : Answers) :
    let res := runs (initClrRuntime A.clrCreateInstance A.getRuntime A.getInterface A.corBindToRuntimeEx) e
    (A.unbound = false ∧ ∃ hr e' r, res = (.ok hr, e') ∧ r ∉ held ∧ Holding e' (r :: held) (some r) pf n) ∨
      (A.unbound = true ∧ ((∃ e', res = (.error .accessViolation, e')) ∨
        ∃ hr e' pc', res = (.ok hr, e') ∧ (pc' = pc ∨ pc' = none) ∧ Holding e' held pc' pf n)) := by
  obtain ⟨ho, hruntime, hfactory, hcleanups⟩ := h
  intro res
  simp only [res, Answers.unbound]
  cases A.clrCreateInstance with
  | failed =>
    cases A.corBindToRuntimeEx with
    | failed => exact .inr ⟨rfl, .inr ⟨_, _, none, rfl, .inr rfl, ho, rfl, hfactory, hcleanups⟩⟩
    | null => exact .inr ⟨rfl, .inr ⟨_, _, none, rfl, .inr rfl, ho, rfl, hfactory, hcleanups⟩⟩
    | handed => exact .inl ⟨rfl, _, _, _, rfl, ho.fresh, ho.acquire, rfl, hfactory, hcleanups⟩
  | null => exact .inr ⟨rfl, .inl ⟨_, rfl⟩⟩
  | handed =>
    -- the meta host is released on every path
    have hmeta := ho.acquire
    cases A.getRuntime with
    | failed => exact .inr ⟨rfl, .inr ⟨_, _, pc, rfl, .inl rfl, hmeta.release, hruntime, hfactory, hcleanups⟩⟩
    | null => exact .inr ⟨rfl, .inl ⟨_, rfl⟩⟩
    | handed =>
      have hinfo := hmeta.acquire
      cases A.getInterface with
      | failed => exact .inr ⟨rfl, .inr ⟨_, _, none, rfl, .inr rfl, hinfo.release.release, rfl, hfactory, hcleanups⟩⟩
      | null => exact .inr ⟨rfl, .inr ⟨_, _, none, rfl, .inr rfl, hinfo.release.release, rfl, hfactory, hcleanups⟩⟩
      | handed =>
        have hbound := ((hinfo.acquire.perm (.swap ..)).release.perm (.swap ..)).release
        exact .inl ⟨rfl, _, _, _, rfl, fun hr => hinfo.fresh (.tail _ (.tail _ hr)), hbound, rfl, hfactory, hcleanups⟩

/-! ## The factory -/

theorem startRuntime_runs {r : Nat} (h : Holding e held (some r) pf n) (start : Bool) :
    ∃ e', runs (startRuntime start) e = (if start then .ok () else .error (.thrown (.comError none)), e') ∧
      Holding e' held (some r) pf n := by
  obtain ⟨pCorRuntime, _⟩ := e
  obtain ⟨ho, rfl, hfactory, hcleanups⟩ := h
  cases start with
  | true => exact ⟨_, rfl, ho, rfl, hfactory, hcleanups⟩
  | false => exact ⟨_, rfl, ho, rfl, hfactory, hcleanups⟩

theorem defaultDomain_runs {r : Nat} (h : Holding e held (some r) pf n) (getDefaultDomain queryAppDomain : Reply) :
    let res := runs (defaultDomain getDefaultDomain queryAppDomain) e
    (getDefaultDomain = .handed ∧ queryAppDomain = .handed ∧
      ∃ e' d, res = (.ok (some d), e') ∧ d ∉ held ∧ Holding e' (d :: held) (some r) pf n) ∨
      ((getDefaultDomain ≠ .handed ∨ queryAppDomain ≠ .handed) ∧
        ∃ e', res = (.error (.thrown (.comError none)), e') ∧ Holding e' held (some r) pf n) := by
  obtain ⟨pCorRuntime, _⟩ := e
  obtain ⟨ho, rfl, hfactory, hcleanups⟩ := h
  have hunk := ho.acquire
  cases getDefaultDomain with
  | failed => exact .inr ⟨.inl nofun, _, rfl, ho, rfl, hfactory, hcleanups⟩
  | null => exact .inr ⟨.inl nofun, _, rfl, ho, rfl, hfactory, hcleanups⟩
  | handed =>
    cases queryAppDomain with
    | failed => exact .inr ⟨.inr nofun, _, rfl, hunk.release, rfl, hfactory, hcleanups⟩
    | null => exact .inr ⟨.inr nofun, _, rfl, hunk.release, rfl, hfactory, hcleanups⟩
    | handed =>
      refine .inl ⟨rfl, rfl, _, _, rfl, fun hd => ?_, (hunk.acquire.perm (.swap ..)).release, rfl, hfactory, hcleanups⟩
      exact hunk.fresh (.tail _ hd)

theorem objectHandle_runs {d : Nat} (h : Holding e (d :: held) pc pf n) (bstrs : Bool) (createInstance : Reply) :
    let res := runs (objectHandle (some d) bstrs createInstance) e
    (bstrs = true ∧ createInstance = .handed ∧
      ∃ e' o, res = (.ok (some o), e') ∧ o ∉ held ∧ Holding e' (o :: held) pc pf n) ∨
    (bstrs = true ∧ createInstance ≠ .handed ∧
      ∃ e', res = (.error (.thrown (.comError none)), e') ∧ Holding e' held pc pf n) ∨
    (bstrs = false ∧ res = (.error (.thrown (.comError none)), e)) := by
  obtain ⟨ho, hruntime, hfactory, hcleanups⟩ := h
  cases bstrs with
  | false => exact .inr (.inr ⟨rfl, rfl⟩)
  | true =>
    cases createInstance with
    | failed => exact .inr (.inl ⟨rfl, nofun, _, rfl, ho.release, hruntime, hfactory, hcleanups⟩)
    | null => exact .inr (.inl ⟨rfl, nofun, _, rfl, ho.release, hruntime, hfactory, hcleanups⟩)
    | handed =>
      refine .inl ⟨rfl, rfl, _, _, rfl, fun hm => ho.fresh (.tail _ hm), ?_, hruntime, hfactory, hcleanups⟩
      exact (ho.acquire.perm (.swap ..)).release

/-- The object handle `o` is still held, and no pointer has it. -/
theorem hostFactory_runs {o : Nat} (h : Holding e held pc none n) (hmem : o ∈ held) (unwrap queryHostFactory : Reply) :
    ∃ res e' held' pf, runs (hostFactory (some o) unwrap queryHostFactory) e = (res, e') ∧
      Holding e' held' pc pf n ∧ held ⊆ held' ∧ pf ≠ some o := by
  obtain ⟨ho, hruntime, hfactory, hcleanups⟩ := h
  have hvariant := ho.acquire
  cases unwrap with
  | failed => exact ⟨_, _, held, none, rfl, ⟨ho, hruntime, hfactory, hcleanups⟩, fun _ => id, nofun⟩
  | null => exact ⟨_, _, held, none, rfl, ⟨ho, hruntime, hfactory, hcleanups⟩, fun _ => id, nofun⟩
  | handed =>
    cases queryHostFactory with
    | failed => exact ⟨_, _, held, none, rfl, ⟨hvariant.release, hruntime, rfl, hcleanups⟩, fun _ => id, nofun⟩
    | null => exact ⟨_, _, held, none, rfl, ⟨hvariant.release, hruntime, rfl, hcleanups⟩, fun _ => id, nofun⟩
    | handed =>
      refine ⟨_, _, _, some _, rfl, ⟨(hvariant.acquire.perm (.swap ..)).release, hruntime, rfl, hcleanups⟩,
        fun _ => .tail _, fun heq => ?_⟩
      have hold := ho.acquired_of_mem hmem
      simp only [Ledger.acquire, Option.some.injEq] at heq
      omega

theorem configureFactory_runs (h : Holding e held pc pf n) (configure : Configure) :
    ∃ res e', runs (configureFactory configure) e = (res, e') ∧ Holding e' held pc pf n := by
  obtain ⟨_, pHostFactory, _⟩ := e
  obtain ⟨ho, hruntime, rfl, hcleanups⟩ := h
  cases pHostFactory with
  | none => exact ⟨_, _, rfl, ho, hruntime, rfl, hcleanups⟩
  | some f => cases configure <;> exact ⟨_, _, rfl, ho, hruntime, rfl, hcleanups⟩

/-- From a runtime on. When a call up to `CreateInstance` says no, what was
acquired is released; otherwise a reference that no pointer has stays. -/
theorem createFactory_runs {r : Nat} (h : Holding e held (some r) none n) (hr : r ∈ held) (A : Answers) :
    let res := runs (createFactory A) e
    (A.cut = true ∧ ∃ c e', res = (.error (.thrown c), e') ∧ Holding e' held (some r) none n) ∨
      (A.cut = false ∧ ∃ out e' held' pf, res = (out, e') ∧ Holding e' held' (some r) pf n ∧ r ∈ held' ∧
        ∃ o ∈ held', o ≠ r ∧ pf ≠ some o) := by
  intro res
  simp only [res, Answers.cut, Bool.or_eq_true, Bool.and_eq_true, Bool.or_eq_false_iff, Bool.and_eq_false_iff,
    Bool.not_eq_true', Bool.not_eq_false', bne_iff_ne, bne_eq_false_iff_eq]
  unfold createFactory
  obtain ⟨e₁, h₁, hheld₁⟩ := startRuntime_runs h A.start
  cases hstart : A.start with
  | false =>
    rw [hstart] at h₁
    rw [runs_bind_error h₁]
    exact .inl ⟨.inl (.inl (.inl rfl)), _, e₁, rfl, hheld₁⟩
  | true =>
    rw [hstart] at h₁
    rw [runs_bind_ok h₁]
    rcases defaultDomain_runs hheld₁ A.getDefaultDomain A.queryAppDomain with
      ⟨hget, hquery, e₂, d, h₂, hfresh, hheld₂⟩ | ⟨hsome, e₂, h₂, hheld₂⟩
    · rw [runs_bind_ok h₂]
      rcases objectHandle_runs hheld₂ A.bstrs A.createInstance with
        ⟨hbstrs, hcreate, e₃, o, h₃, hnew, hheld₃⟩ | ⟨hbstrs, hcreate, e₃, h₃, hheld₃⟩ | ⟨hbstrs, h₃⟩
      · rw [runs_bind_ok h₃]
        refine .inr ⟨⟨⟨⟨rfl, hget⟩, hquery⟩, .inr hcreate⟩, ?_⟩
        have hor : o ≠ r := fun heq => hnew (heq ▸ hr)
        obtain ⟨out, e₄, held', pf, h₄, hheld₄, hsub, hpf⟩ := hostFactory_runs hheld₃ (.head _) A.unwrap A.queryHostFactory
        cases out with
        | error x =>
          rw [runs_bind_error h₄]
          exact ⟨_, e₄, held', pf, rfl, hheld₄, hsub (.tail _ hr), o, hsub (.head _), hor, hpf⟩
        | ok u =>
          rw [runs_bind_ok h₄]
          obtain ⟨out, e₅, h₅, hheld₅⟩ := configureFactory_runs hheld₄ A.configure
          exact ⟨out, e₅, held', pf, h₅, hheld₅, hsub (.tail _ hr), o, hsub (.head _), hor, hpf⟩
      · rw [runs_bind_error h₃]
        exact .inl ⟨.inr ⟨hbstrs, hcreate⟩, _, e₃, rfl, hheld₃⟩
      · -- the domain itself is lost
        rw [runs_bind_error h₃]
        exact .inr ⟨⟨⟨⟨rfl, hget⟩, hquery⟩, .inl hbstrs⟩, _, e₂, d :: held, none, rfl, hheld₂, .tail _ hr,
          d, .head _, fun heq => hfresh (heq ▸ hr), nofun⟩
    · rw [runs_bind_error h₂]
      refine .inl ⟨.inl ?_, _, e₂, rfl, hheld₂⟩
      rcases hsome with hget | hquery
      · exact .inl (.inr hget)
      · exact .inr hquery

/-- `Start` through null. -/
theorem createFactory_null (h : Holding e held none pf n) (A : Answers) :
    ∃ e', runs (createFactory A) e = (.error .accessViolation, e') := by
  obtain ⟨pCorRuntime, _⟩ := e
  obtain ⟨-, rfl, -, -⟩ := h
  exact ⟨_, rfl⟩

/-! ## An attempt -/

theorem lockModule_runs (h : Holding e held pc pf n) (A : Answers) :
    ∃ e', runs (lockModule A) e = (if A.found then .ok () else .error (.thrown (.comError none)), e') ∧
      Holding e' held pc pf n := by
  unfold lockModule Answers.found aspModuleLock98 aspModuleLock
  cases A.win32Windows with
  | true =>
    cases A.getModuleFileNameA with
    | true => exact ⟨e, rfl, h⟩
    | false => exact raiseError_runs h _
  | false =>
    cases A.getModuleFileNameW with
    | true => exact ⟨e, rfl, h⟩
    | false => exact raiseError_runs h _

theorem registerStop_runs (h : Holding e held pc pf n) :
    ∃ e', runs registerStop e = (.ok (), e') ∧ Holding e' held pc pf (n + 1) :=
  ⟨_, rfl, h.owes, h.runtime, h.factory, congrArg (· + 1) h.cleanups⟩

theorem sayLoaded_runs (h : Holding e held pc pf n) :
    ∃ e', runs sayLoaded e = (.ok (), e') ∧ Holding e' held pc pf n :=
  ⟨_, rfl, h.owes, h.runtime, h.factory, h.cleanups⟩

/-- What an attempt that registers the cleanup leaves: `r` is the runtime now. -/
theorem initAspEngine_runs (h : Holding e held pc none n) (hpc : ∀ r, pc = some r → r ∈ held) (A : Answers)
    (hfound : A.found = true) :
    let res := runs (initAspEngine A) e
    (A.short = true ∧ ∃ c e' r, res = (.error (.thrown c), e') ∧ Holding e' (r :: held) (some r) none (n + 1)) ∨
      (A.short = false ∧ ((∃ e', res = (.error .accessViolation, e')) ∨
        ∃ out e' held' r pf, res = (out, e') ∧ Holding e' held' (some r) pf (n + 1) ∧ r ∈ held' ∧
          (pc = none → ∃ o ∈ held', o ≠ r ∧ pf ≠ some o))) := by
  intro res
  simp only [res, Answers.short, Bool.and_eq_true, Bool.and_eq_false_iff, Bool.not_eq_true', Bool.not_eq_false']
  obtain ⟨e₁, h₁, hheld₁⟩ := lockModule_runs h A
  rw [if_pos hfound] at h₁
  obtain ⟨e₂, h₂, hheld₂⟩ := registerStop_runs hheld₁
  unfold initAspEngine
  rw [runs_bind_ok h₁, runs_bind_ok h₂]
  rcases initClrRuntime_runs hheld₂ A with
    ⟨hbound, hr, e₃, r, h₃, hnew, hheld₃⟩ | ⟨hunbound, ⟨e₃, h₃⟩ | ⟨hr, e₃, pc', h₃, hpc', hheld₃⟩⟩
  · obtain ⟨e₄, h₄, hheld₄⟩ := sayLoaded_runs hheld₃
    rw [runs_bind_ok h₃, runs_bind_ok h₄]
    rcases createFactory_runs hheld₄ (.head _) A with
      ⟨hcut, c, e₅, h₅, hheld₅⟩ | ⟨hcut, out, e₅, held', pf, h₅, hheld₅, hr', hlost⟩
    · exact .inl ⟨⟨hbound, hcut⟩, c, e₅, r, h₅, hheld₅⟩
    · exact .inr ⟨.inr hcut, .inr ⟨out, e₅, held', r, pf, h₅, hheld₅, hr', fun _ => hlost⟩⟩
  · rw [runs_bind_error h₃]
    exact .inr ⟨.inl hunbound, .inl ⟨e₃, rfl⟩⟩
  · -- nothing new is bound: `Start` goes to the runtime of an earlier attempt, or through null
    refine .inr ⟨.inl hunbound, ?_⟩
    obtain ⟨e₄, h₄, hheld₄⟩ := sayLoaded_runs hheld₃
    rw [runs_bind_ok h₃, runs_bind_ok h₄]
    cases hp : pc' with
    | none => exact .inl (createFactory_null (hp ▸ hheld₄) A)
    | some r =>
      have hpc₀ : pc = some r := by
        rcases hpc' with rfl | rfl
        · exact hp
        · cases hp
      have hold := hpc r hpc₀
      refine .inr ?_
      rcases createFactory_runs (hp ▸ hheld₄) hold A with
        ⟨-, c, e₅, h₅, hheld₅⟩ | ⟨-, out, e₅, held', pf, h₅, hheld₅, hr', -⟩
      · exact ⟨_, e₅, held, r, none, h₅, hheld₅, hold, fun hnone => by rw [hnone] at hpc₀; cases hpc₀⟩
      · exact ⟨out, e₅, held', r, pf, h₅, hheld₅, hr', fun hnone => by rw [hnone] at hpc₀; cases hpc₀⟩

/-- Lines are logged, and that is all. -/
theorem say_all_eq : ∀ (lines : List Bytes) (e : EngineConf),
    runs (lines.forM say) e = (.ok (), { e with log := e.log ++ lines }) := by
  intro lines
  induction lines with
  | nil => intro e; rw [List.append_nil]; rfl
  | cons line lines ih =>
    intro e
    have hsay : runs (say line) e = (.ok (), { e with log := e.log ++ [line] }) := rfl
    refine (runs_bind_ok hsay).trans ((ih _).trans ?_)
    rw [List.append_assoc]
    rfl

theorem Holding.logged (h : Holding e held pc pf n) (log : List Bytes) : Holding { e with log := log } held pc pf n :=
  ⟨h.owes, h.runtime, h.factory, h.cleanups⟩

section
variable {A : Answers} {e' : EngineConf}

theorem startAspNet_started (hco : A.coInit = .ok) {u : Unit} (hi : runs (initAspEngine A) e = (.ok u, e')) :
    runs (startAspNet A) e = (.ok true, e') := by
  have hgoes : runs (do initAspEngine A; pure true) e = (.ok true, e') := runs_bind_ok hi
  unfold startAspNet
  rw [if_pos hco, runs_tryCatch_ok hgoes]

/-- What is thrown is caught. -/
theorem startAspNet_thrown (hco : A.coInit = .ok) {c : Caught}
    (hi : runs (initAspEngine A) e = (.error (.thrown c), e')) :
    runs (startAspNet A) e = (.ok false, { e' with log := e'.log ++ engineFailed c }) := by
  unfold startAspNet
  rw [if_pos hco, runs_tryCatch_error (runs_bind_error hi)]
  exact runs_bind_ok (say_all_eq (engineFailed c) e')

/-- An access violation is not. -/
theorem startAspNet_crash (hco : A.coInit = .ok) (hi : runs (initAspEngine A) e = (.error .accessViolation, e')) :
    runs (startAspNet A) e = (.error .accessViolation, e') := by
  unfold startAspNet
  rw [if_pos hco, runs_tryCatch_error (runs_bind_error hi)]
  rfl

theorem startAspNet_keeps (hco : A.coInit = .ok) {out : Except Fault Unit}
    (hi : runs (initAspEngine A) e = (out, e')) (h : Holding e' held pc pf n) :
    ∃ res e'', runs (startAspNet A) e = (res, e'') ∧ Holding e'' held pc pf n := by
  match out, hi with
  | .ok u, hi => exact ⟨_, _, startAspNet_started hco hi, h⟩
  | .error (.thrown c), hi => exact ⟨_, _, startAspNet_thrown hco hi, h.logged _⟩
  | .error .accessViolation, hi => exact ⟨_, _, startAspNet_crash hco hi, h⟩

end

theorem startAspNet_failed {A : Answers} (hco : A.coInit ≠ .ok) (e : EngineConf) :
    runs (startAspNet A) e = (.ok false, { e with log := e.log ++
      [lit "mod_aspdotnet: Failed to CoInitialize the threaded COM engine for .NET CLR interop!"] }) := by
  unfold startAspNet
  rw [if_neg hco]
  rfl

/-- The hosts leave the engine alone. -/
theorem createHosts_runs (e : EngineConf) : ∀ hosts : List Bool, ∃ res, runs (createHosts hosts) e = (res, e) := by
  intro hosts
  obtain ⟨_, pHostFactory, _⟩ := e
  induction hosts with
  | nil => exact ⟨_, rfl⟩
  | cons created hosts ih =>
    cases pHostFactory with
    | none => exact ⟨_, rfl⟩
    | some f =>
      cases created with
      | false => exact ⟨_, rfl⟩
      | true => exact ih

theorem startMissing_missing (A : Answers) (h : e.missing = true) :
    runs (startMissing A) e = runs (startAspNet A) e := by
  have hget : runs (get : EngineM EngineConf) e = (.ok e, e) := rfl
  unfold startMissing
  rw [runs_bind_ok hget, h]
  rfl

theorem startMissing_started (A : Answers) (h : e.missing = false) : runs (startMissing A) e = (.ok true, e) := by
  have hget : runs (get : EngineM EngineConf) e = (.ok e, e) := rfl
  unfold startMissing
  rw [runs_bind_ok hget, h]
  rfl

/-- With both interfaces there is nothing to start. -/
theorem postConfig_started (A : Answers) (h : e.missing = false) : ∃ res, runs (postConfig A) e = (res, e) := by
  obtain ⟨res, hhosts⟩ := createHosts_runs e A.createHosts
  exact ⟨res, (runs_bind_ok (startMissing_started A h)).trans hhosts⟩

theorem missing_of_holding (h : Holding e held pc none n) : e.missing = true := by
  unfold EngineConf.missing
  rw [h.factory]
  exact Bool.or_true _

/-- An attempt that does not register the cleanup. -/
theorem postConfig_unregistered (h : Holding e held pc none n) {A : Answers} (hA : A.registers = false) :
    ∃ e', runs (postConfig A) e = (.ok 1, e') ∧ Holding e' held pc none n := by
  obtain ⟨e', hstart, hheld⟩ : ∃ e', runs (startAspNet A) e = (.ok false, e') ∧ Holding e' held pc none n := by
    by_cases hco : A.coInit = .ok
    · have hfound : A.found = false := by simpa [Answers.registers, hco] using hA
      obtain ⟨e₁, h₁, hheld₁⟩ := lockModule_runs h A
      rw [hfound] at h₁
      exact ⟨_, startAspNet_thrown hco (runs_bind_error h₁), hheld₁.logged _⟩
    · exact ⟨_, startAspNet_failed hco e, h.logged _⟩
  exact ⟨e', runs_bind_ok ((startMissing_missing A (missing_of_holding h)).trans hstart), hheld⟩

/-- An attempt that registers it. -/
theorem postConfig_registers (h : Holding e held pc none n) (hpc : ∀ r, pc = some r → r ∈ held) {A : Answers}
    (hA : A.registers = true) :
    (A.short = true ∧ ∃ e' r, runs (postConfig A) e = (.ok 1, e') ∧ Holding e' (r :: held) (some r) none (n + 1)) ∨
      (A.short = false ∧ ∃ res e', runs (postConfig A) e = (res, e') ∧ (res = .error .accessViolation ∨
        ∃ held' r pf, Holding e' held' (some r) pf (n + 1) ∧ r ∈ held' ∧
          (pc = none → ∃ o ∈ held', o ≠ r ∧ pf ≠ some o))) := by
  obtain ⟨hco, hfound⟩ : A.coInit = .ok ∧ A.found = true := by
    simpa [Answers.registers] using hA
  have hmissing := startMissing_missing A (missing_of_holding h)
  rcases initAspEngine_runs h hpc A hfound with
    ⟨hshort, c, e₁, r, h₁, hheld₁⟩ | ⟨hshort, ⟨e₁, h₁⟩ | ⟨out, e₁, held', r, pf, h₁, hheld₁, hr, hlost⟩⟩
  · exact .inl ⟨hshort, _, r, runs_bind_ok (hmissing.trans (startAspNet_thrown hco h₁)), hheld₁.logged _⟩
  · exact .inr ⟨hshort, _, e₁, runs_bind_error (hmissing.trans (startAspNet_crash hco h₁)), .inl rfl⟩
  · refine .inr ⟨hshort, ?_⟩
    obtain ⟨res, e₂, h₂, hheld₂⟩ := startAspNet_keeps hco h₁ hheld₁
    have hleft : ∃ held' r pf, Holding e₂ held' (some r) pf (n + 1) ∧ r ∈ held' ∧
        (pc = none → ∃ o ∈ held', o ≠ r ∧ pf ≠ some o) := ⟨held', r, pf, hheld₂, hr, hlost⟩
    rw [← hmissing] at h₂
    match res, h₂ with
    | .error x, h₂ => exact ⟨_, e₂, runs_bind_error h₂, .inr hleft⟩
    | .ok false, h₂ => exact ⟨_, e₂, runs_bind_ok h₂, .inr hleft⟩
    | .ok true, h₂ =>
      obtain ⟨res, hhosts⟩ := createHosts_runs e₂ A.createHosts
      exact ⟨res, e₂, (runs_bind_ok h₂).trans hhosts, .inr hleft⟩

end

end ModAspNet.L6.Engine
