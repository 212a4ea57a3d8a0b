import ModAspNet.Core.RelyGuarantee
import ModAspNet.L1Text.Managed

/-!
# `HostFactory`

The managed factory keeps four parallel lists: for each host key the virtual
path, the physical path, the server and the `Host` object that serves it. A
request is dispatched to the object without a lock; when the object is missing
or its application domain is gone, a section under the factory's monitor
connects a new one and the request is dispatched again.

Each function is a program (`Prog`) over atomic operations (`Op`): a read or a
write of a list, entering and leaving the monitor, a call on a host. What the
run-time system answers is a `Choice`: `CreateApplicationHost` may give an
object, null or an exception, a call on a host may raise, and so may building a
string or logging it. The state records what happened (`Event`); the program
texts read none of it.

* `factoryTasks`: the calls of the factory, for any number of threads.
* `exec_did`: what an operation can do, once for all proofs.
* `exec_text`: reading a path, building and logging a text leave everything
  but the error log.
-/
namespace ModAspNet.L4.HostFactory

open ModAspNet.L1.CStr ModAspNet.L1.Managed
open ModAspNet.Core

/-! ## Objects and exceptions -/

/-- The identity of a `Host` object. -/
abbrev HostId := Nat

/-- The exceptions the code tells apart, those its own operations raise, and
any other; `text` is `e->ToString()`. -/
inductive Exn where
  | RemotingException (text : WString)
  | AppDomainUnloadedException (text : WString)
  | NullReferenceException
  | ArgumentOutOfRangeException
  | IndexOutOfRangeException
  | SynchronizationLockException
  | other (text : WString)
  deriving DecidableEq

def Exn.toString : Exn → WString
  | .RemotingException text => text
  | .AppDomainUnloadedException text => text
  | .NullReferenceException => wlit "System.NullReferenceException"
  | .ArgumentOutOfRangeException => wlit "System.ArgumentOutOfRangeException"
  | .IndexOutOfRangeException => wlit "System.IndexOutOfRangeException"
  | .SynchronizationLockException => wlit "System.Threading.SynchronizationLockException"
  | .other text => text

/-- The exceptions that mean the host is lost. -/
def Exn.hostLost : Exn → Bool
  | .RemotingException _ => true
  | .AppDomainUnloadedException _ => true
  | _ => false

/-- A `server_rec *`: one kept in `hostSvr`, or `rr->server`. -/
inductive ServerPtr where
  | record (p : Nat)
  | ofRequest (rr : Nat)
  deriving DecidableEq

def APLOG_ERR : Int := 3
def APLOG_INFO : Int := 6
def APLOG_DEBUG : Int := 7

/-! ## Operations -/

/-- Where `hostObj[HostKey]` is read; at the read under the lock, with the
object the request came with. -/
inductive ReadSite where
  | entry
  | tryobj (obj : Option HostId)
  | restarted
  | finalizer
  deriving DecidableEq

/-- The two calls of `HandleRequest`: before and after the restart section. -/
inductive DispatchSite where
  | first
  | second
  deriving DecidableEq

/-- The four lists. -/
inductive ListField where
  | hostURI
  | hostDir
  | hostObj
  | hostSvr
  deriving DecidableEq

inductive Op where
  | hostObjCount
  | hostObjGet (k : Int) (site : ReadSite)
  | hostObjSet (k : Int) (v : Option HostId)
  | hostURIGet (k : Int)
  | hostDirGet (k : Int)
  | hostSvrGet (k : Int)
  | hostSvrAdd (p : Nat)
  | hostURIAdd (u : WString)
  | hostDirAdd (d : WString)
  | hostObjAdd
  | createApplicationHost (k : Int) (uri dir : WString)
  | configure (k : Int) (h : HostId) (uri dir : WString)
  | handleRequest (site : DispatchSite) (k : Int) (h : HostId) (rr : Nat)
  | concat (parts : List WString)
  | logServerError (msg : WString) (loglevel : Int) (s : ServerPtr)
  | monitorEnter
  | monitorExit (section_end : Option Int)
  | equals (thisHost : HostId) (v : Option HostId)
  | utf8EncodingGet
  | utf8EncodingDrop
  | listDrop (l : ListField)
  deriving DecidableEq

@[reducible] def Op.Ans : Op → Type
  | .hostObjCount => Int
  | .hostObjGet _ _ => Option HostId
  | .hostURIGet _ => WString
  | .hostDirGet _ => WString
  | .hostSvrGet _ => Nat
  | .createApplicationHost _ _ _ => Option HostId
  | .handleRequest _ _ _ _ => Int
  | .concat _ => WString
  | .equals _ _ => Bool
  | .utf8EncodingGet => Bool
  | _ => Unit

abbrev FProg := Prog Op Op.Ans Exn

abbrev atom (o : Op) : FProg o.Ans := Prog.perform o

abbrev hostObjGet (k : Int) (site : ReadSite) : FProg (Option HostId) := atom (.hostObjGet k site)
abbrev hostObjSet (k : Int) (v : Option HostId) : FProg Unit := atom (.hostObjSet k v)
abbrev hostURIGet (k : Int) : FProg WString := atom (.hostURIGet k)
abbrev hostDirGet (k : Int) : FProg WString := atom (.hostDirGet k)
abbrev hostSvrGet (k : Int) : FProg Nat := atom (.hostSvrGet k)
abbrev concat (parts : List WString) : FProg WString := atom (.concat parts)
abbrev monitorEnter : FProg Unit := atom .monitorEnter
abbrev monitorExit (section_end : Option Int) : FProg Unit := atom (.monitorExit section_end)

abbrev logServerError (msg : WString) (loglevel : Int) (s : ServerPtr) : FProg Unit :=
  atom (.logServerError msg loglevel s)

/-! ## The functions -/

/-- mirrors Apache.Web/HostFactory.h:116-152 -/
def connectHost (k : Int) : FProg Bool :=
  Prog.tryCatch
    (do
      let uri ← hostURIGet k
      let dir ← hostDirGet k
      let newHost ← atom (.createApplicationHost k uri dir)
      hostObjSet k newHost
      match newHost with
      | some host => do
        let uri ← hostURIGet k
        let dir ← hostDirGet k
        atom (.configure k host uri dir)
        pure true
      | none => do
        let s ← hostSvrGet k
        logServerError (wlit ("mod_aspdotnet: CreateApplicationHost returned NULL, " ++
          "perhaps the AspNetMount paths were invalid")) APLOG_ERR (.record s)
        pure false)
    fun e => do
      let s ← hostSvrGet k
      logServerError (wlit "mod_aspdotnet: CreateApplicationHost failed, Exception follows") APLOG_ERR (.record s)
      logServerError e.toString APLOG_ERR (.record s)
      hostObjSet k none
      pure false

/-- mirrors Apache.Web/HostFactory.h:154-167 -/
def hostFinalized (k : Int) (thisHost : HostId) : FProg Unit := do
  monitorEnter
  let v ← hostObjGet k .finalizer
  let same ← atom (.equals thisHost v)
  match same with
  | true => do
    Prog.tryCatch (hostObjSet k none) fun _ => pure ()
    monitorExit none
  | false => monitorExit none

/-- `String::Concat(what, hostURI[k], L" mapped to ", hostDir[k])`, logged. -/
def logMapping (what : String) (k : Int) (loglevel : Int) (s : ServerPtr) : FProg Unit := do
  let uri ← hostURIGet k
  let dir ← hostDirGet k
  let msg ← concat [wlit what, uri, wlit " mapped to ", dir]
  logServerError msg loglevel s

/-- `String::Concat(what, e->ToString())`, logged. -/
def logException (what : String) (e : Exn) (loglevel : Int) (s : ServerPtr) : FProg Unit := do
  let msg ← concat [wlit what, e.toString]
  logServerError msg loglevel s

/-- mirrors Apache.Web/HostFactory.h:170-194 -/
def createHost (virtualPath physicalPath : WString) (serverRecPtr : Nat) : FProg Int := do
  let newHostKey ← atom .hostObjCount
  atom (.hostSvrAdd serverRecPtr)
  atom (.hostURIAdd virtualPath)
  atom (.hostDirAdd (replaceSlashes physicalPath))
  atom .hostObjAdd
  let connected ← connectHost newHostKey
  match connected with
  | true => pure newHostKey
  | false => do
    logMapping "Mount failure creating host " newHostKey APLOG_ERR (.record serverRecPtr)
    pure (-1)

/-- The first dispatch: the status to return, or `none` to fall through to the
restart. mirrors Apache.Web/HostFactory.h:200-226 -/
def firstDispatch (k : Int) (obj : Option HostId) (rr : Nat) : FProg (Option Int) :=
  match obj with
  | none => pure none
  | some host =>
    Prog.tryCatch
      (do
        let status ← atom (.handleRequest .first k host rr)
        pure (some status))
      fun e => match e with
        | .RemotingException _ => do
          logException "RemotingException; " e APLOG_DEBUG (.ofRequest rr)
          pure none
        | .AppDomainUnloadedException _ => do
          logException "AppDomainUnloadedException; " e APLOG_DEBUG (.ofRequest rr)
          pure none
        | _ => do
          logException "HandleRequest: Failed with unexpected Exception; " e APLOG_ERR (.ofRequest rr)
          pure (some 500)

/-- The restart section ends with a status to return, or with the object to
dispatch to, which is not null. -/
inductive Restart where
  | failed (status : Int)
  | target (obj : HostId)

/-- `if (tryobj == obj)`: the stale reference is released; the value is that of
`obj` afterwards. mirrors Apache.Web/HostFactory.h:239-254 -/
def releaseStale (k : Int) (tryobj obj : Option HostId) : FProg (Option HostId) :=
  if tryobj = obj then do
    Prog.tryCatch (hostObjSet k none) fun _ => pure ()
    pure tryobj
  else pure obj

/-- The section between `Monitor::Enter` and its last `Monitor::Exit`, on the
object the request came with. mirrors Apache.Web/HostFactory.h:238-275 -/
def restartLocked (k : Int) (obj : Option HostId) (rr : Nat) : FProg Restart := do
  let tryobj ← hostObjGet k (.tryobj obj)
  let obj ← releaseStale k tryobj obj
  match obj with
  | none => do
    let connected ← connectHost k
    match connected with
    | false => do
      monitorExit none
      logMapping "Mount failed to connect to the restarting host " k APLOG_ERR (.ofRequest rr)
      pure (.failed 500)
    | true => do
      let obj ← hostObjGet k .restarted
      match obj with
      | none => do
        monitorExit none
        logMapping "Mount failed to query the restarting host " k APLOG_ERR (.ofRequest rr)
        pure (.failed 500)
      | some host => do
        monitorExit (some k)
        pure (.target host)
  | some host => do
    monitorExit (some k)
    pure (.target host)

/-- `if (welocked)` -/
def exitIf : Bool → FProg Unit
  | true => monitorExit none
  | false => pure ()

/-- The `catch` clause of the section. mirrors Apache.Web/HostFactory.h:276-289 -/
def restartFailed (k : Int) (rr : Nat) (welocked : Bool) (e : Exn) : FProg Restart := do
  exitIf welocked
  logMapping "Mount failure restarting host " k APLOG_ERR (.ofRequest rr)
  logException "Mount failure exception restarting host; " e APLOG_ERR (.ofRequest rr)
  pure (.failed 500)

/-- mirrors Apache.Web/HostFactory.h:234-289 -/
def restart (k : Int) (obj : Option HostId) (rr : Nat) : FProg Restart := do
  let entered ← Prog.attempt monitorEnter
  match entered with
  | .error e => restartFailed k rr false e
  | .ok _ => Prog.tryCatch (restartLocked k obj rr) (restartFailed k rr true)

/-- mirrors Apache.Web/HostFactory.h:291-302 -/
def secondDispatch (k : Int) (host : HostId) (rr : Nat) : FProg Int :=
  Prog.tryCatch (atom (.handleRequest .second k host rr)) fun e => do
    logException "RequestHandler; failure following host restart; " e APLOG_ERR (.ofRequest rr)
    pure 500

/-- mirrors Apache.Web/HostFactory.h:196-305 -/
def handleHostRequest (k : Int) (rr : Nat) : FProg Int := do
  let obj ← hostObjGet k .entry
  let first ← firstDispatch k obj rr
  match first with
  | some status => pure status
  | none => do
    logMapping "Restarting host of " k APLOG_INFO (.ofRequest rr)
    let restarted ← restart k obj rr
    match restarted with
    | .failed status => pure status
    | .target host => secondDispatch k host rr

/-- `for (int i = 0; i < hosts; ++i)` of `Destroy`, `left` turns to go. -/
def clearHosts : Nat → Int → FProg Unit
  | 0, _ => pure ()
  | left + 1, i => do
    Prog.tryCatch (hostObjSet i none) fun _ => pure ()
    clearHosts left (i + 1)

/-- mirrors Apache.Web/HostFactory.h:94-113 -/
def destroy : FProg Unit := do
  let encoding ← atom .utf8EncodingGet
  match encoding with
  | true => do
    atom .utf8EncodingDrop
    let hosts ← atom .hostObjCount
    clearHosts hosts.toNat 0
    atom (.listDrop .hostURI)
    atom (.listDrop .hostDir)
    atom (.listDrop .hostObj)
    atom (.listDrop .hostSvr)
  | false => pure ()

/-! ## The state -/

/-- One call: the thread, and how many calls it had made before. -/
structure Caller where
  thread : Nat
  number : Nat
  deriving DecidableEq

/-- What happened, in order. `lines` of the error log are not events. -/
inductive Event where
  | created (k : Int) (h : HostId)
  | configured (k : Int) (h : HostId) (uri dir : WString)
  | configureRaised (k : Int) (h : HostId) (e : Exn)
  | dispatched (c : Caller) (site : DispatchSite) (k : Int) (h : HostId)
  | processed (c : Caller) (h : HostId)
  | dispatchRaised (c : Caller) (site : DispatchSite) (k : Int) (h : HostId) (e : Exn)
  | stored (c : Caller) (k : Int) (v : Option HostId)
  | finalized (k : Int) (h : HostId)
  | sectionEnd (c : Caller) (k : Int) (v : Option HostId)
  deriving DecidableEq

/-- What `CreateApplicationHost` made, for which key and with which paths. -/
structure Creation where
  key : Int
  host : HostId
  uri : WString
  dir : WString
  deriving DecidableEq

/-- The fields of the factory (a list is `none` once `Destroy` dropped it), its
monitor (the thread inside and how often it entered beyond the first time), and
the record of the run. -/
structure Factory where
  utf8_encoding : Bool
  hostURI : Option (List WString)
  hostDir : Option (List WString)
  hostObj : Option (List (Option HostId))
  hostSvr : Option (List Nat)
  monitor : Option (Nat × Nat)
  hosts : Nat
  made : List Creation
  calls : Nat → Nat
  events : List Event
  error_log : List (WString × Int × ServerPtr)

/-- The constructor. mirrors Apache.Web/HostFactory.h:60-66 -/
def newFactory : Factory where
  utf8_encoding := true
  hostURI := some []
  hostDir := some []
  hostObj := some []
  hostSvr := some []
  monitor := none
  hosts := 0
  made := []
  calls := fun _ => 0
  events := []
  error_log := []

/-- `list[k]` of an `ArrayList`. -/
def item {α : Type} (l : Option (List α)) (k : Int) : Except Exn α :=
  match l with
  | none => .error .NullReferenceException
  | some l =>
    if k < 0 then .error .ArgumentOutOfRangeException
    else match l[k.toNat]? with
      | some a => .ok a
      | none => .error .ArgumentOutOfRangeException

/-- The thread inside the monitor. -/
def Factory.owner (s : Factory) : Option Nat := s.monitor.map Prod.fst

def Factory.caller (s : Factory) (t : Nat) : Caller := ⟨t, s.calls t⟩

def Factory.note (s : Factory) (es : List Event) : Factory := { s with events := s.events ++ es }

/-- A host was made. -/
def Factory.newHost (s : Factory) (k : Int) (uri dir : WString) : Factory :=
  { s with
    hosts := s.hosts + 1
    made := s.made ++ [⟨k, s.hosts, uri, dir⟩]
    events := s.events ++ [.created k s.hosts] }

/-- The object in `hostObj[k]`, null also where there is no such entry. -/
def Factory.slot (s : Factory) (k : Int) : Option HostId :=
  match item s.hostObj k with
  | .ok v => v
  | .error _ => none

/-- `hostObj[k] = v`, where there is such an entry. -/
def Factory.store (s : Factory) (c : Caller) (k : Int) (v : Option HostId) : Factory :=
  { s with
    hostObj := s.hostObj.map fun (l : List (Option HostId)) => l.set k.toNat v
    events := s.events ++ [.stored c k v] }

/-- `list = nullptr` -/
def Factory.drop (s : Factory) (l : ListField) : Factory :=
  { s with
    hostURI := if l = .hostURI then none else s.hostURI
    hostDir := if l = .hostDir then none else s.hostDir
    hostObj := if l = .hostObj then none else s.hostObj
    hostSvr := if l = .hostSvr then none else s.hostSvr }

@[simp] theorem Factory.drop_events (s : Factory) (l : ListField) : (s.drop l).events = s.events := rfl

/-- What the run-time system answers to an operation. -/
inductive Choice where
  | ok
  | null
  | status (started : Bool) (n : Int)
  | raise (started : Bool) (e : Exn)
  deriving DecidableEq

/-- `list->Add(v)` -/
def add {α : Type} (l : Option (List α)) (v : α) : Except Exn (List α) :=
  match l with
  | none => .error .NullReferenceException
  | some l => .ok (l ++ [v])

def started (c : Caller) (h : HostId) (b : Bool) : List Event := if b then [.processed c h] else []

/-- What leaving the monitor at the end of the section records. -/
def sectionEnd (s : Factory) (t : Nat) : Option Int → List Event
  | some k => [.sectionEnd (s.caller t) k (s.slot k)]
  | none => []

def exec : Exec Op Op.Ans Exn Choice Factory
  | _, .hostObjCount, .ok, s =>
    match s.hostObj with
    | none => some (.error .NullReferenceException, s)
    | some l => some (.ok l.length, s)
  | _, .hostObjGet k _, .ok, s => some (item s.hostObj k, s)
  | t, .hostObjSet k v, .ok, s =>
    match item s.hostObj k with
    | .error e => some (.error e, s)
    | .ok _ => some (.ok (), s.store (s.caller t) k v)
  | _, .hostURIGet k, .ok, s => some (item s.hostURI k, s)
  | _, .hostDirGet k, .ok, s => some (item s.hostDir k, s)
  | _, .hostSvrGet k, .ok, s => some (item s.hostSvr k, s)
  | _, .hostSvrAdd p, .ok, s =>
    match add s.hostSvr p with
    | .error e => some (.error e, s)
    | .ok l => some (.ok (), { s with hostSvr := some l })
  | _, .hostURIAdd u, .ok, s =>
    match add s.hostURI u with
    | .error e => some (.error e, s)
    | .ok l => some (.ok (), { s with hostURI := some l })
  | _, .hostDirAdd d, .ok, s =>
    match add s.hostDir d with
    | .error e => some (.error e, s)
    | .ok l => some (.ok (), { s with hostDir := some l })
  | _, .hostObjAdd, .ok, s =>
    match add s.hostObj none with
    | .error e => some (.error e, s)
    | .ok l => some (.ok (), { s with hostObj := some l })
  | _, .createApplicationHost k uri dir, .ok, s => some (.ok (some s.hosts), s.newHost k uri dir)
  | _, .createApplicationHost _ _ _, .null, s => some (.ok none, s)
  | _, .createApplicationHost _ _ _, .raise _ e, s => some (.error e, s)
  | _, .configure k h uri dir, .ok, s => some (.ok (), s.note [.configured k h uri dir])
  | _, .configure k h _ _, .raise _ e, s => some (.error e, s.note [.configureRaised k h e])
  | t, .handleRequest site k h _, .status b n, s =>
    some (.ok n, s.note (.dispatched (s.caller t) site k h :: started (s.caller t) h b))
  | t, .handleRequest site k h _, .raise b e, s =>
    some (.error e, s.note (.dispatched (s.caller t) site k h ::
      started (s.caller t) h b ++ [.dispatchRaised (s.caller t) site k h e]))
  | _, .concat parts, .ok, s => some (.ok parts.flatten, s)
  | _, .concat _, .raise _ e, s => some (.error e, s)
  | _, .logServerError msg loglevel p, .ok, s =>
    if !s.utf8_encoding then some (.error .NullReferenceException, s)
    else if msg = [] then some (.error .IndexOutOfRangeException, s)
    else some (.ok (), { s with error_log := s.error_log ++ [(msg, loglevel, p)] })
  | _, .logServerError _ _ _, .raise _ e, s => some (.error e, s)
  | t, .monitorEnter, .ok, s =>
    match s.monitor with
    | none => some (.ok (), { s with monitor := some (t, 0) })
    | some (t', n) => if t' = t then some (.ok (), { s with monitor := some (t, n + 1) }) else none
  | _, .monitorEnter, .raise _ e, s => some (.error e, s)
  | t, .monitorExit section_end, .ok, s =>
    match s.monitor with
    | none => some (.error .SynchronizationLockException, s)
    | some (t', n) =>
      if t' = t then
        some (.ok (), { s with monitor := if n = 0 then none else some (t, n - 1) }.note
          (sectionEnd s t section_end))
      else some (.error .SynchronizationLockException, s)
  | _, .equals thisHost v, .ok, s => some (.ok (decide (v = some thisHost)), s)
  | _, .equals _ _, .raise _ e, s => some (.error e, s)
  | _, .utf8EncodingGet, .ok, s => some (.ok s.utf8_encoding, s)
  | _, .utf8EncodingDrop, .ok, s => some (.ok (), { s with utf8_encoding := false })
  | _, .listDrop l, .ok, s => some (.ok (), s.drop l)
  | _, _, _, _ => none

/-! ## Calls -/

inductive Call where
  | handleHostRequest (k : Int) (rr : Nat)
  | hostFinalized (k : Int) (h : HostId)
  | createHost (virtualPath physicalPath : WString) (serverRecPtr : Nat)
  | destroy
  deriving DecidableEq

/-- A call gets its number; that a host is finalized is noted before its
finalizer calls. -/
def enter (t : Nat) (c : Call) (s : Factory) : Factory :=
  let s := { s with calls := setAt s.calls t (s.calls t + 1) }
  match c with
  | .hostFinalized k h => s.note [.finalized k h]
  | _ => s

/-- The program of a call; 0 where the function returns nothing. -/
def body : Call → FProg Int
  | .handleHostRequest k rr => handleHostRequest k rr
  | .hostFinalized k h => hostFinalized k h >>= fun _ => pure 0
  | .createHost v p svr => createHost v p svr
  | .destroy => destroy >>= fun _ => pure 0

def factoryTasks : Tasks Op Op.Ans Exn Factory Call Int := ⟨enter, body⟩

abbrev FConfig := Config Op Op.Ans Exn Factory Int
abbrev FAction := Action Call Choice

/-- A run of a new factory: any calls of any threads, interleaved in any way. -/
structure History where
  actions : List FAction
  last : FConfig
  ran : run exec factoryTasks (.quiet newFactory) actions = some last

/-- What happened in a run. -/
def History.events (H : History) : List Event := H.last.shared.events

/-! ## What each operation does -/

section
variable {t : Nat} {x : Choice} {s s' : Factory}

theorem exec_hostObjGet {k : Int} {site : ReadSite} {r : Except Exn (Option HostId)}
    (h : exec t (.hostObjGet k site) x s = some (r, s')) : r = item s.hostObj k ∧ s' = s := by
  cases x <;> simp only [exec, Option.some.injEq, Prod.mk.injEq, reduceCtorEq] at h
  exact ⟨h.1.symm, h.2.symm⟩

theorem exec_hostObjSet {k : Int} {v : Option HostId} {r : Except Exn Unit}
    (h : exec t (.hostObjSet k v) x s = some (r, s')) :
    (∃ e, r = .error e ∧ s' = s ∧ item s.hostObj k = .error e) ∨
    (∃ v₀, r = .ok () ∧ item s.hostObj k = .ok v₀ ∧ s' = s.store (s.caller t) k v) := by
  cases x <;> simp only [exec, reduceCtorEq] at h
  split at h
  · rename_i e he; cases h; exact .inl ⟨e, rfl, rfl, he⟩
  · rename_i v₀ hv; cases h; exact .inr ⟨v₀, rfl, hv, rfl⟩

theorem exec_createApplicationHost {k : Int} {uri dir : WString} {r : Except Exn (Option HostId)}
    (h : exec t (.createApplicationHost k uri dir) x s = some (r, s')) :
    (r = .ok (some s.hosts) ∧ s' = s.newHost k uri dir) ∨
    (s' = s ∧ (r = .ok none ∨ ∃ e, r = .error e)) := by
  cases x <;> simp only [exec, Option.some.injEq, Prod.mk.injEq, reduceCtorEq] at h
  · exact .inl ⟨h.1.symm, h.2.symm⟩
  · exact .inr ⟨h.2.symm, .inl h.1.symm⟩
  · exact .inr ⟨h.2.symm, .inr ⟨_, h.1.symm⟩⟩

theorem exec_configure {k : Int} {host : HostId} {uri dir : WString} {r : Except Exn Unit}
    (h : exec t (.configure k host uri dir) x s = some (r, s')) :
    (r = .ok () ∧ s' = s.note [.configured k host uri dir]) ∨
    (∃ b e, x = .raise b e ∧ r = .error e ∧ s' = s.note [.configureRaised k host e]) := by
  cases x <;> simp only [exec, Option.some.injEq, Prod.mk.injEq, reduceCtorEq] at h
  · exact .inl ⟨h.1.symm, h.2.symm⟩
  · exact .inr ⟨_, _, rfl, h.1.symm, h.2.symm⟩

theorem exec_handleRequest {site : DispatchSite} {k : Int} {host : HostId} {rr : Nat} {r : Except Exn Int}
    (h : exec t (.handleRequest site k host rr) x s = some (r, s')) :
    (∃ b n, r = .ok n ∧ s' = s.note (.dispatched (s.caller t) site k host :: started (s.caller t) host b)) ∨
    (∃ b e, r = .error e ∧ s' = s.note (.dispatched (s.caller t) site k host ::
      started (s.caller t) host b ++ [.dispatchRaised (s.caller t) site k host e])) := by
  cases x <;> simp only [exec, Option.some.injEq, Prod.mk.injEq, reduceCtorEq] at h
  · exact .inl ⟨_, _, h.1.symm, h.2.symm⟩
  · exact .inr ⟨_, _, h.1.symm, h.2.symm⟩

theorem exec_monitorEnter {r : Except Exn Unit} (h : exec t .monitorEnter x s = some (r, s')) :
    (∃ n, r = .ok () ∧ (s.owner = none ∨ s.owner = some t) ∧ s' = { s with monitor := some (t, n) }) ∨
    (∃ e, r = .error e ∧ s' = s) := by
  cases x <;> simp only [exec, reduceCtorEq] at h
  · split at h
    · rename_i hm; cases h; exact .inl ⟨0, rfl, .inl (by rw [Factory.owner, hm]; rfl), rfl⟩
    · rename_i t' n hm
      split at h
      · rename_i ht; subst ht; cases h
        exact .inl ⟨n + 1, rfl, .inr (by rw [Factory.owner, hm]; rfl), rfl⟩
      · cases h
  · cases h; exact .inr ⟨_, rfl, rfl⟩

theorem exec_monitorExit {section_end : Option Int} {r : Except Exn Unit}
    (h : exec t (.monitorExit section_end) x s = some (r, s')) :
    (∃ m, r = .ok () ∧ s.owner = some t ∧ (m = none ∨ ∃ n, m = some (t, n)) ∧
      s' = { s with monitor := m }.note (sectionEnd s t section_end)) ∨
    (r = .error .SynchronizationLockException ∧ s.owner ≠ some t ∧ s' = s) := by
  cases x <;> simp only [exec, reduceCtorEq] at h
  split at h
  · rename_i hm; cases h; exact .inr ⟨rfl, by simp [Factory.owner, hm], rfl⟩
  · rename_i t' n hm
    split at h
    · rename_i ht; subst ht; cases h
      refine .inl ⟨_, rfl, by rw [Factory.owner, hm]; rfl, ?_, rfl⟩
      split
      · exact .inl rfl
      · exact .inr ⟨_, rfl⟩
    · rename_i ht; cases h
      exact .inr ⟨rfl, by simpa [Factory.owner, hm] using ht, rfl⟩

theorem exec_equals {thisHost : HostId} {v : Option HostId} {r : Except Exn Bool}
    (h : exec t (.equals thisHost v) x s = some (r, s')) :
    s' = s ∧ (r = .ok (decide (v = some thisHost)) ∨ ∃ e, r = .error e) := by
  cases x <;> simp only [exec, Option.some.injEq, Prod.mk.injEq, reduceCtorEq] at h
  · exact ⟨h.2.symm, .inl h.1.symm⟩
  · exact ⟨h.2.symm, .inr ⟨_, h.1.symm⟩⟩

/-- The events of one dispatch; `raised` is the exception it ended with. -/
def dispatchEvents (c : Caller) (site : DispatchSite) (k : Int) (h : HostId) (b : Bool) (raised : Option Exn) :
    List Event :=
  .dispatched c site k h :: started c h b ++ (raised.map (Event.dispatchRaised c site k h)).toList

/-- What an operation of thread `t` can do to the state, its answer aside. -/
inductive Did (t : Nat) (s : Factory) : Op → Factory → Prop
  /-- it read, it wrote to the error log, or it raised -/
  | log {o} (l) : Did t s o { s with error_log := l }
  | stored {k v v₀} (h : item s.hostObj k = .ok v₀) : Did t s (.hostObjSet k v) (s.store (s.caller t) k v)
  | created {k uri dir} : Did t s (.createApplicationHost k uri dir) (s.newHost k uri dir)
  | configured {k h uri dir} : Did t s (.configure k h uri dir) (s.note [.configured k h uri dir])
  | configureRaised {k h uri dir} (e) : Did t s (.configure k h uri dir) (s.note [.configureRaised k h e])
  | dispatched {site k h rr} (b raised) : Did t s (.handleRequest site k h rr)
      (s.note (dispatchEvents (s.caller t) site k h b raised))
  | entered (n) (h : s.owner = none ∨ s.owner = some t) : Did t s .monitorEnter { s with monitor := some (t, n) }
  | exited {section_end} (m) (h : s.owner = some t) (hm : m = none ∨ ∃ n, m = some (t, n)) :
      Did t s (.monitorExit section_end) ({ s with monitor := m }.note (sectionEnd s t section_end))
  | addedSvr {p} (l) (h : add s.hostSvr p = .ok l) : Did t s (.hostSvrAdd p) { s with hostSvr := some l }
  | addedURI {u} (l) (h : add s.hostURI u = .ok l) : Did t s (.hostURIAdd u) { s with hostURI := some l }
  | addedDir {d} (l) (h : add s.hostDir d = .ok l) : Did t s (.hostDirAdd d) { s with hostDir := some l }
  | addedObj (l) (h : add s.hostObj none = .ok l) : Did t s .hostObjAdd { s with hostObj := some l }
  | encodingDropped : Did t s .utf8EncodingDrop { s with utf8_encoding := false }
  | listDropped (l) : Did t s (.listDrop l) (s.drop l)

theorem exec_did {o : Op} {r : Except Exn o.Ans} (h : exec t o x s = some (r, s')) : Did t s o s' := by
  have hlog : Did t s o s := .log s.error_log
  cases o with
  | hostObjSet k v =>
    rcases exec_hostObjSet h with ⟨e, -, rfl, -⟩ | ⟨v₀, -, hv, rfl⟩
    · exact hlog
    · exact .stored hv
  | createApplicationHost k uri dir =>
    rcases exec_createApplicationHost h with ⟨-, rfl⟩ | ⟨rfl, -⟩
    · exact .created
    · exact hlog
  | configure k host uri dir =>
    rcases exec_configure h with ⟨-, rfl⟩ | ⟨b, e, -, -, rfl⟩
    · exact .configured
    · exact .configureRaised e
  | handleRequest site k host rr =>
    rcases exec_handleRequest h with ⟨b, n, -, rfl⟩ | ⟨b, e, -, rfl⟩
    · simpa [dispatchEvents] using Did.dispatched (t := t) (s := s) (h := host) b none
    · exact .dispatched b (some e)
  | monitorEnter =>
    rcases exec_monitorEnter h with ⟨n, -, ho, rfl⟩ | ⟨e, -, rfl⟩
    · exact .entered n ho
    · exact hlog
  | monitorExit section_end =>
    rcases exec_monitorExit h with ⟨m, -, ho, hm, rfl⟩ | ⟨-, -, rfl⟩
    · exact .exited m ho hm
    · exact hlog
  | hostSvrAdd p | hostURIAdd u | hostDirAdd d | hostObjAdd =>
    cases x <;> simp only [exec, reduceCtorEq] at h
    split at h <;> cases h
    · exact hlog
    · constructor; assumption
  | utf8EncodingDrop | listDrop l =>
    cases x <;> simp only [exec, reduceCtorEq] at h
    cases h; constructor
  | _ =>
    cases x <;> simp only [exec, reduceCtorEq] at h
    all_goals (repeat' split at h) <;> cases h <;> first | exact hlog | exact .log _

end

/-! ## The lists -/

section
variable {α : Type} {l : Option (List α)} {m : List α} {v a : α} {k : Int}

theorem item_eq_ok : item l k = .ok a ↔ ∃ xs, l = some xs ∧ 0 ≤ k ∧ xs[k.toNat]? = some a := by
  unfold item
  split
  · simp
  · rename_i xs
    split
    · simp; omega
    · split <;> simp_all

/-- What `Add` appends to a list changes no entry of it. -/
theorem item_add (h : add l v = .ok m) (ha : item l k = .ok a) : item (some m) k = .ok a := by
  obtain ⟨xs, rfl, hk, hx⟩ := item_eq_ok.mp ha
  cases h
  exact item_eq_ok.mpr ⟨_, rfl, hk, by rw [List.getElem?_append_left (List.getElem?_eq_some_iff.mp hx).1, hx]⟩

theorem item_of_add (h : add l v = .ok m) (ha : item (some m) k = .ok a) : item l k = .ok a ∨ a = v := by
  obtain ⟨ys, hm, hk, hx⟩ := item_eq_ok.mp ha
  cases hm
  cases l with
  | none => cases h
  | some xs =>
    cases h
    by_cases hlt : k.toNat < xs.length
    · rw [List.getElem?_append_left hlt] at hx
      exact .inl (item_eq_ok.mpr ⟨xs, rfl, hk, hx⟩)
    · rw [List.getElem?_append_right (by omega)] at hx
      obtain ⟨hi, hx⟩ := List.getElem?_eq_some_iff.mp hx
      exact .inr (by simpa using hx.symm)

theorem item_store {s : Factory} {c : Caller} {v v₀ : Option HostId} (h : item s.hostObj k = .ok v₀) (k' : Int) :
    item (s.store c k v).hostObj k' = if k' = k then .ok v else item s.hostObj k' := by
  obtain ⟨xs, hl, hk, hx⟩ := item_eq_ok.mp h
  have hlt := (List.getElem?_eq_some_iff.mp hx).1
  rw [Factory.store, hl]
  simp only [Option.map_some]
  split
  · rename_i he; subst he
    exact item_eq_ok.mpr ⟨_, rfl, hk, by rw [List.getElem?_set_self hlt]⟩
  · rename_i he
    unfold item
    dsimp only
    by_cases hk' : k' < 0
    · rw [if_pos hk', if_pos hk']
    · rw [if_neg hk', if_neg hk', List.getElem?_set_ne (by omega)]

end

/-! ## Texts -/

/-- The operations that read a path or a server, build a text or log it. -/
def Op.isText : Op → Bool
  | .hostURIGet _ => true
  | .hostDirGet _ => true
  | .hostSvrGet _ => true
  | .concat _ => true
  | .logServerError _ _ _ => true
  | _ => false

/-- They leave everything but the error log. -/
theorem exec_text {t : Nat} {o : Op} {x : Choice} {s s' : Factory} {r : Except Exn o.Ans} (ho : o.isText = true)
    (h : exec t o x s = some (r, s')) : ∃ l, s' = { s with error_log := l } := by
  cases exec_did h with
  | log l => exact ⟨l, rfl⟩
  | _ => cases ho

theorem atom_text (o : Op) (h : o.isText = true) : (atom o).Performs (Op.isText · = true) :=
  Prog.Performs.perform h

theorem logMapping_text (what : String) (k : Int) (loglevel : Int) (p : ServerPtr) :
    (logMapping what k loglevel p).Performs (Op.isText · = true) := by
  refine .bind (fun uri => .bind (fun dir => .bind (fun msg => ?_) ?_) ?_) ?_
  · exact atom_text (.logServerError msg loglevel p) rfl
  · exact atom_text (.concat _) rfl
  · exact atom_text (.hostDirGet k) rfl
  · exact atom_text (.hostURIGet k) rfl

theorem logException_text (what : String) (e : Exn) (loglevel : Int) (p : ServerPtr) :
    (logException what e loglevel p).Performs (Op.isText · = true) := by
  refine .bind (fun msg => ?_) ?_
  · exact atom_text (.logServerError msg loglevel p) rfl
  · exact atom_text (.concat _) rfl

/-- A specification that does not look at the error log. -/
structure LogBlind {A : Assumption Op Call Choice Factory} (S : Spec exec A) : Prop where
  inv : ∀ s l, S.inv s → S.inv { s with error_log := l }
  rely : ∀ t s l, S.rely t s { s with error_log := l }
  good : ∀ t o s l, o.isText = true → S.good t o s { s with error_log := l }

/-- Under such a specification texts keep what is stable. -/
theorem LogBlind.triple {A : Assumption Op Call Choice Factory} {S : Spec exec A} (hB : LogBlind S) {t : Nat}
    {P : Factory → Prop} (hs : S.Stable t P) {α : Type} {p : FProg α} (hp : p.Performs (Op.isText · = true)) :
    S.Triple t P p fun _ => P := by
  refine .of_performs hs (fun o ho s x r s' hi hP _ he => ?_) hp
  obtain ⟨l, rfl⟩ := exec_text ho he
  exact ⟨⟨hB.inv s l hi, fun t' _ => hB.rely t' s l, hB.good t o s l ho⟩,
    hs s _ hi (hB.inv s l hi) hP (hB.rely t s l)⟩

end ModAspNet.L4.HostFactory
