import ModAspNet.L3Router.Handler
import ModAspNet.L4Factory.Mounting

/-!
# Configuration passes of a server process

httpd reads its configuration several times in one process. Each pass clears
the configuration pool, runs `asp_net_pre_config`, which finds `global_conf`
again in the userdata of the process pool, reads the directives of the servers,
merges each virtual host with the main server, and runs `asp_net_post_config`,
which creates a host for each record that has no key yet.

* A step is one of these; a `Life` is any sequence of steps.
* What is not under the repository enters as data: whether paths resolve
  (`MountArgs`), how the engine starts (`EngineStart`), in which order
  `apr_hash_next` enumerates the records, how each `CreateHost` goes (`Choice`),
  and the conversions of strings and exceptions (`Interop`).
* `mounts` and `creates` record what happened; no function reads them.
-/
namespace ModAspNet.L6.Passes

open ModAspNet.L1.CStr ModAspNet.L1.Managed ModAspNet.L2.Mount ModAspNet.L3.Handler
open ModAspNet.L4.HostFactory (Exn Choice Factory newFactory createHost exec enter)
open ModAspNet.Core

/-! ## Interoperation -/

/-- The three `catch` clauses of `asp_net_post_config`; `desc` is the
description of a `_com_error`, if it has one. -/
inductive Caught where
  | comError (desc : Option Bytes)
  | hresult
  | other

/-- `MultiByteToWideChar` with `CP_UTF8` (none: it returned 0), the conversion
`_bstr_t` makes of a `char *`, and how an exception of `CreateHost` is caught
(none: `_com_raise_error(E_NOINTERFACE)`). -/
structure Interop where
  multiByteToWideChar : CString → Option WString
  bstr : CString → WString
  caught : Option Exn → Caught

/-- The string handed over for a path. mirrors mod/mod_aspdotnet.cpp:793-818 -/
def Interop.widen (c : Interop) (path : CString) : WString :=
  match c.multiByteToWideChar path with
  | some w => w
  | none => c.bstr path

/-! ## The state -/

/-- A successful `AspNetMount` of a pass and a server, with the host record of
the alias it left. -/
structure MountRecord where
  pass : Nat
  server : Nat
  uri : CString
  root : CString
  host : Option HostPtr
  deriving DecidableEq

/-- `global_conf` and the factory are there once they were made; `servers` has
the alias table of each server of the current pass, the main server first. -/
structure Process where
  pass : Nat
  global_conf : Option HostTable
  factory : Option Factory
  servers : List SrvConf
  mounts : List MountRecord
  creates : List (HostPtr × Except Exn Int)

def newProcess : Process := ⟨0, none, none, [], [], []⟩

/-- The alias of a virtual path in a server's table. -/
def SrvConf.alias (s : SrvConf) (v : CString) : Option Alias :=
  aprHashGet s.aliases ⟨.process, v.val, 0⟩ v.length

/-! ## A pass -/

/-- `asp_net_pre_config`, and the tables of the servers of the new pass.
mirrors mod/mod_aspdotnet.cpp:703-723 -/
def preConfig (p : Process) (servers : Nat) : Process :=
  { p with
    pass := p.pass + 1
    global_conf := some (p.global_conf.getD ⟨[], []⟩)
    servers := List.replicate servers createAspNetSrvconf }

/-- The path and the directory a mount goes through with. -/
def resolved (a : MountArgs) : Option CString := if a.isDir = true then a.root else none

/-- An `AspNetMount` line of a server. -/
def mount (p : Process) (server : Nat) (a : MountArgs) : Option Process :=
  match p.global_conf, p.servers[server]? with
  | some g, some s =>
    let after := mountCmd p.pass g s a
    some { p with
      global_conf := some after.1
      servers := p.servers.set server after.2.1
      mounts := p.mounts ++ (resolved a).toList.map fun root =>
        ⟨p.pass, server, a.uri, root, (SrvConf.alias after.2.1 a.uri).map Alias.host⟩ }
  | _, _ => none

/-- Each virtual host is merged with the main server. -/
def fixupVirtualHosts (p : Process) : Process :=
  match p.servers with
  | [] => p
  | main :: hosts => { p with servers := main :: hosts.map (mergeAspNetSrvconf main) }

/-! ## `asp_net_post_config` -/

/-- How `CoInitialize` and `init_asp_engine` go. `unconfigured`: the factory
was obtained, and its `Configure` failed. -/
inductive EngineStart where
  | coInitializeFailed
  | failed (c : Caught)
  | unconfigured (c : Caught)
  | started

def engineFailed : Caught → List Bytes
  | .comError none => [lit "mod_aspdotnet: Failed to start Asp.Net Apache.Web host factory"]
  | .comError (some desc) =>
    [lit "mod_aspdotnet: Failed to start Asp.Net Apache.Web host factory", lit "mod_aspdotnet: " ++ desc]
  | _ => [lit "mod_aspdotnet: Failed to start Asp.Net Apache.Web host factory."]

/-- The first part: the factory to go on with, or what is logged and left
behind before `return 1`. mirrors mod/mod_aspdotnet.cpp:737-774 -/
def startEngine (f : Option Factory) (e : EngineStart) : Except (List Bytes × Option Factory) Factory :=
  match f with
  | some f => .ok f
  | none => match e with
    | .coInitializeFailed => .error
        ([lit "mod_aspdotnet: Failed to CoInitialize the threaded COM engine for .NET CLR interop!"], none)
    | .failed c => .error (engineFailed c, none)
    | .unconfigured c => .error (engineFailed c, some newFactory)
    | .started => .ok newFactory

def mappedTo (r : HostConf) : Bytes := r.virtual_path.str.val ++ lit " mapped to " ++ r.physical_path.str.val

def createFailed (r : HostConf) : Caught → List Bytes
  | .comError desc =>
    [lit "mod_aspdotnet: Failed to create Host connector for " ++ mappedTo r,
      lit "mod_aspdotnet: " ++ desc.getD (lit "(null)")]
  | _ => [lit "mod_aspdotnet: Failed to create Host for " ++ mappedTo r]

def createdHost (r : HostConf) : Bytes := lit "mod_aspdotnet: Sucessfully created Host for " ++ mappedTo r

/-- `host->host_key = k` -/
def setKey (g : HostTable) (host : HostPtr) (k : Int) : HostTable :=
  { g with records := g.records.modify host fun r => { r with host_key := k } }

/-- How the loop over the records ended: the status, the lines logged, and
what it left. -/
structure Created where
  status : Int
  log : List Bytes
  table : HostTable
  factory : Factory
  creates : List (HostPtr × Except Exn Int)

/-- `pHostFactory->CreateHost` for a record; `server` is the address of
`global_server`. -/
def callCreateHost (c : Interop) (server : Nat) (r : HostConf) (choices : List Choice) (f : Factory) :
    Option (Except Exn Int × Factory) :=
  let virtual_path := c.widen r.virtual_path.str
  let physical_path := c.widen r.physical_path.str
  (createHost virtual_path physical_path server).solo exec 0 choices
    (enter 0 (.createHost virtual_path physical_path server) f)

/-- The loop over the records in the order of the enumeration, one script of
choices for each call of `CreateHost`. mirrors mod/mod_aspdotnet.cpp:777-848 -/
def createHosts (c : Interop) (server : Nat) : List HostPtr → List (List Choice) → HostTable → Factory → Option Created
  | [], _, g, f => some ⟨OK, [], g, f, []⟩
  | host :: items, scripts, g, f =>
    match g.records[host]? with
    | none => none
    | some r =>
      if r.host_key ≠ -1 then createHosts c server items scripts g f
      else match scripts with
        | [] => none
        | choices :: scripts =>
          match callCreateHost c server r choices f with
          | none => none
          | some (.error e, f') => some ⟨1, createFailed r (c.caught (some e)), g, f', [(host, .error e)]⟩
          | some (.ok k, f') =>
            -- the key is assigned before it is compared with -1
            if k = -1 then some ⟨1, createFailed r (c.caught none), setKey g host k, f', [(host, .ok k)]⟩
            else (createHosts c server items scripts (setKey g host k) f').map fun rest =>
              { rest with log := createdHost r :: rest.log, creates := (host, .ok k) :: rest.creates }

/-- mirrors mod/mod_aspdotnet.cpp:726-851. The result is the status, the lines
logged, and the process after it. -/
def postConfig (c : Interop) (p : Process) (e : EngineStart) (order : List HostPtr) (scripts : List (List Choice)) :
    Option (Int × List Bytes × Process) :=
  match p.global_conf with
  | none => none
  | some g =>
    match startEngine p.factory e with
    | .error (log, f) => some (1, log, { p with factory := f })
    | .ok f =>
      if order.isPerm (g.hosts.map Prod.snd) then
        (createHosts c p.pass order scripts g f).map fun r =>
          (r.status, r.log, { p with
            global_conf := some r.table
            factory := some r.factory
            creates := p.creates ++ r.creates })
      else none

/-! ## Lives -/

inductive Step where
  | preConfig (servers : Nat)
  | mount (server : Nat) (a : MountArgs)
  | fixupVirtualHosts
  | postConfig (e : EngineStart) (order : List HostPtr) (scripts : List (List Choice))

def step (c : Interop) (p : Process) : Step → Option Process
  | .preConfig n => some (preConfig p n)
  | .mount server a => mount p server a
  | .fixupVirtualHosts => some (fixupVirtualHosts p)
  | .postConfig e order scripts => (postConfig c p e order scripts).map fun r => r.2.2

def run (c : Interop) (p : Process) : List Step → Option Process
  | [] => some p
  | a :: as =>
    match step c p a with
    | none => none
    | some p' => run c p' as

/-- A process from its start: any steps, each possible where it comes. -/
structure Life (c : Interop) where
  steps : List Step
  last : Process
  ran : run c newProcess steps = some last

/-- What every step keeps holds at the end of a run. -/
theorem run_inv {c : Interop} {I : Process → Prop} (hstep : ∀ p a p', I p → step c p a = some p' → I p') :
    ∀ {as : List Step} {p p' : Process}, I p → run c p as = some p' → I p'
  | [], _, _, hi, h => by cases h; exact hi
  | a :: as, p, p', hi, h => by
    unfold run at h
    split at h
    · cases h
    · rename_i p₁ ha
      exact run_inv hstep (hstep p a p₁ hi ha) h

theorem resolved_eq_some {a : MountArgs} {root : CString} : resolved a = some root ↔ a.Succeeds root := by
  unfold resolved MountArgs.Succeeds
  split
  · rename_i h; simp [h]
  · rename_i h; simp [h]

end ModAspNet.L6.Passes
