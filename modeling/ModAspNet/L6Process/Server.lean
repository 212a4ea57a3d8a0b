import ModAspNet.L3Router.Coverage
import ModAspNet.L4Factory.Invoked
import ModAspNet.L6Process.HostKeys
import ModAspNet.L6Process.OneText

/-!
# From the directive to the host

A process reads its configuration, as often as httpd restarts, and then serves
requests, in any number of threads at once, with hosts being finalized and
connected again meanwhile. What an `AspNetMount` line says goes a long way: by
an alias to a host record, by its key to the lists of the factory, and by the
entry of the key to a host.

* `serverInv_run`: what holds of tables, records and factory together in every
  life of a process.
* `served_by_mount`: a request that the handler passes on is dispatched to hosts
  made with the paths of an `AspNetMount` line of its server, read in the last
  pass, whose virtual path begins the URI, and configured for no others.
-/
namespace ModAspNet.L6.Passes

open ModAspNet.L1.CStr ModAspNet.L1.Managed ModAspNet.L2.DirConf ModAspNet.L2.Mount ModAspNet.L3.Handler
open ModAspNet.L4.HostFactory (HostId Exn Choice Factory FConfig FAction newFactory exec factoryTasks item Grows HostsInv
  MadeRight Prepared prepared_new prepared_create connected any_grows nextOp invoked_made Served ServedInv isolationEach
  isolating_serving Call)
open ModAspNet.L3.Coverage (siteRequest siteDirconf siteEnv)
open ModAspNet.L3.Selection (appMount)
open ModAspNet.L6.OneText (utf8Interop)
open ModAspNet.Core

/-! ## Alias tables -/

/-- Each alias is under its own virtual path, and no two are under one. -/
structure AliasesKeyed (s : SrvConf) : Prop where
  own : ∀ e ∈ s.aliases, keyView e.1 = (e.2.virtual_path_len, e.2.virtual_path.str.val)
  nodup : (s.aliases.map fun e => keyView e.1).Nodup

theorem AliasesKeyed.alias {s : SrvConf} (h : AliasesKeyed s) {e : HashKey × Alias} (he : e ∈ s.aliases) :
    SrvConf.alias s e.2.virtual_path.str = some e.2 := by
  have hget := Assoc.get_of_mem h.nodup he
  rw [h.own e he, e.2.len_eq] at hget
  rw [SrvConf.alias, aprHashGet, keyView_plain, hget]

theorem mountCmd_keyed {g : HostTable} (hwf : g.WF) (now : Nat) {s : SrvConf} (a : MountArgs) (h : AliasesKeyed s) :
    AliasesKeyed (mountCmd now g s a).2.1 := by
  by_cases hs : ∃ root, a.Succeeds root
  · obtain ⟨root, hs⟩ := hs
    obtain ⟨m, -, hm, htable⟩ := mountCmd_host hwf now s a hs
    have hview : keyView (m.virtual_path, a.uri.length) = (a.uri.length, a.uri.val) := by
      rw [hm]; exact keyView_alias (.conf now) a.uri root
    have hstr : m.virtual_path.str = a.uri := by rw [hm, str_combined]
    rw [htable]
    refine ⟨fun e he => ?_, Assoc.nodup_set h.nodup _ _⟩
    rcases Assoc.mem_set he with ⟨hv, -, hk⟩ | he
    · rw [hk, hview, hv, m.len_eq, hstr]
    · exact h.own e he
  · rw [(mountCmd_failed now g s a fun root hr => hs ⟨root, hr⟩).2]
    exact h

/-! ## The whole process -/

/-- Every key that was given is connected. -/
def KeysConnected (g : HostTable) (f : Factory) : Prop := ∀ i, hostKey g i ≠ -1 → connected f (hostKey g i) = true

structure ServerInv (c : Interop) (p : Process) : Prop where
  keys : KeysInv c p
  prepared : Prepared p.lists
  connected : KeysConnected p.table p.lists
  keyed : ∀ s ∈ p.servers, AliasesKeyed s

theorem serverInv_new (c : Interop) : ServerInv c newProcess where
  keys := keysInv_new c
  prepared := prepared_new
  connected i hne := absurd rfl hne
  keyed s hs := by cases hs

/-- The loop over the records leaves the factory prepared, and the keys it gave
connected. -/
theorem createHosts_prepared (c : Interop) (server : Nat) :
    ∀ {items : List HostPtr} {scripts : List (List Choice)} {g : HostTable} {f : Factory} {r : Created},
      Prepared f → KeysConnected g f → createHosts c server items scripts g f = some r →
      Prepared r.factory ∧ KeysConnected r.table r.factory
  | [], _, _, _, _, hf, hk, h => by cases h; exact ⟨hf, hk⟩
  | host :: items, scripts, g, f, r, hf, hk, h => by
    unfold createHosts at h
    split at h
    · cases h
    rename_i rec hrec
    split at h
    · exact createHosts_prepared c server hf hk h
    split at h
    · cases h
    have hset : ∀ {f' : Factory} {k : Int}, Grows f f' → (k ≠ -1 → connected f' k = true) →
        KeysConnected (setKey g host k) f' := by
      intro f' k hg hnew i hne
      rw [hostKey_setKey hrec] at hne ⊢
      split at hne
      · rw [if_pos ‹_›]; exact hnew hne
      · rw [if_neg ‹_›]; exact any_grows hg (hk i hne)
    split at h
    · cases h
    · rename_i e f' hcall
      cases h
      obtain ⟨hf', hg, -⟩ := prepared_create hf (callCreateHost_runs hcall)
      exact ⟨hf', fun i hne => any_grows hg (hk i hne)⟩
    · rename_i k f' hcall
      obtain ⟨hf', hg, hnew⟩ := prepared_create hf (callCreateHost_runs hcall)
      have hk' := hset hg (hnew k rfl)
      split at h
      · cases h
        exact ⟨hf', hk'⟩
      · obtain ⟨rest, hrest, rfl⟩ := Option.map_eq_some_iff.mp h
        have h := createHosts_prepared c server hf' hk' hrest
        exact h

theorem serverInv_postConfig {c : Interop} {p p' : Process} (hi : ServerInv c p) {e : EngineStart}
    {order : List HostPtr} {scripts : List (List Choice)} {status : Int} {log : List Bytes}
    (h : postConfig c p e order scripts = some (status, log, p')) : ServerInv c p' := by
  have hkeys := (keysInv_postConfig hi.keys h).1
  unfold postConfig at h
  split at h
  · cases h
  rename_i g hg
  have htable : p.table = g := by rw [Process.table, hg]; rfl
  split at h
  · rename_i log f hstart
    cases h
    have hlists : f.getD newFactory = p.lists := startEngine_lists.1 log f hstart
    have hsame : Process.lists { p with factory := f } = p.lists := hlists
    refine ⟨hkeys, ?_, ?_, hi.keyed⟩
    · rw [hsame]; exact hi.prepared
    · rw [hsame]; exact hi.connected
  · rename_i f hstart
    obtain rfl : f = p.lists := startEngine_lists.2 f hstart
    split at h
    · obtain ⟨r, hr, hp⟩ := Option.map_eq_some_iff.mp h
      cases hp
      obtain ⟨hprepared, hconnected⟩ := createHosts_prepared c p.pass hi.prepared (htable ▸ hi.connected) hr
      exact ⟨hkeys, hprepared, hconnected, hi.keyed⟩
    · cases h

theorem serverInv_step {c : Interop} {p p' : Process} {a : Step} (hi : ServerInv c p) (h : step c p a = some p') :
    ServerInv c p' := by
  cases a with
  | preConfig n =>
    cases h
    refine ⟨(keysInv_preConfig hi.keys n).1, hi.prepared, hi.connected, fun s hs => ?_⟩
    obtain rfl := List.eq_of_mem_replicate hs
    exact ⟨nofun, List.nodup_nil⟩
  | mount server a =>
    have hkeys := (keysInv_mount hi.keys h).1
    obtain ⟨g, s, hg, hs, rfl⟩ := mount_eq h
    have htable : p.table = g := by rw [Process.table, hg]; rfl
    refine ⟨hkeys, hi.prepared, fun i hne => ?_, fun s' hs' => ?_⟩
    · change hostKey (mountCmd p.pass g s a).1 i ≠ -1 at hne
      change connected p.lists (hostKey (mountCmd p.pass g s a).1 i) = true
      rw [mountCmd_hostKey, ← htable] at hne ⊢
      exact hi.connected i hne
    · rcases List.mem_or_eq_of_mem_set hs' with hs' | rfl
      · exact hi.keyed s' hs'
      · exact mountCmd_keyed (hi.keys.records.wf g hg) p.pass a (hi.keyed s (List.mem_of_getElem? hs))
  | fixupVirtualHosts =>
    cases h
    rw [fixupVirtualHosts_eq]
    exact hi
  | postConfig e order scripts =>
    obtain ⟨⟨status, log, p₁⟩, hr, rfl⟩ := Option.map_eq_some_iff.mp h
    exact serverInv_postConfig hi hr

theorem serverInv_run {c : Interop} {as : List Step} {p p' : Process} (hi : ServerInv c p) (h : run c p as = some p') :
    ServerInv c p' :=
  run_inv (fun _ _ _ => serverInv_step) hi h

/-! ## A serving process -/

/-- The handler passes `r` on for a server, under `k`, in some order of the
aliases. -/
def Dispatches (p : Process) (server : Nat) (r : RequestRec) (k : Int) : Prop :=
  ∃ s order d env, p.servers[server]? = some s ∧ List.Perm order (s.aliases.map Prod.snd) ∧
    (aspNetHandler d p.table order env r).dispatched = some k

/-- The factory is called for what the handler passes on, and by finalizers. -/
def FromHandler (p : Process) : FAction → Prop
  | .start _ (.handleHostRequest k _) => ∃ server r, Dispatches p server r k
  | .start _ (.createHost _ _ _) => False
  | .start _ .destroy => False
  | _ => True

/-- A process that has read its configuration, any number of times, and has
served requests since. -/
structure Server (c : Interop) where
  life : Life c
  engine : EngineStart
  order : List HostPtr
  scripts : List (List Choice)
  log : List Bytes
  process : Process
  ready : postConfig c life.last engine order scripts = some (OK, log, process)
  actions : List FAction
  passed : ∀ a ∈ actions, FromHandler process a
  now : FConfig
  ran : Core.run exec factoryTasks (.quiet process.lists) actions = some now

/-- The calls the threads are in. -/
def Server.calling {c : Interop} (S : Server c) : Calling Call Factory :=
  Core.calling exec factoryTasks (.quiet S.process.lists) (fun _ => none) S.actions

/-- Host `h` was made for `k` with the paths of the mount `m`, in `post_config`
or since, and if it has been configured, then for these. -/
structure HostOf {c : Interop} (S : Server c) (m : MountRecord) (k : Int) (h : HostId) : Prop where
  created : .created k h ∈ S.now.shared.events
  made : ∀ uri dir, ⟨k, h, uri, dir⟩ ∈ S.now.shared.made ↔ uri = c.widen m.uri ∧ dir = replaceSlashes (c.widen m.root)
  configured : ∀ k' uri dir, .configured k' h uri dir ∈ S.now.shared.events →
    k' = k ∧ uri = c.widen m.uri ∧ dir = replaceSlashes (c.widen m.root)

/-- Requests under `k` go to what the mount `m` says. -/
structure ServedBy {c : Interop} (S : Server c) (m : MountRecord) (k : Int) : Prop where
  record : ∃ i, m.host = some i ∧ hostKey S.process.table i = k
  /-- the object a request under `k` is handed to was made for `k` -/
  invoked : ∀ t rr s site k' h rr', S.calling t = some (.handleHostRequest k rr, s) →
    nextOp S.now t = some (.handleRequest site k' h rr') → k' = k ∧ .created k h ∈ S.now.shared.events
  hosts : ∀ h, .created k h ∈ S.now.shared.events → HostOf S m k h
  /-- what is still to be made for `k` will be made with the paths of the mount -/
  made : ∀ t uri dir, nextOp S.now t = some (.createApplicationHost k uri dir) →
    uri = c.widen m.uri ∧ dir = replaceSlashes (c.widen m.root)

/-- An alias of the server, of the key of its record, begins the URI. -/
theorem dispatches_alias {p : Process} {server : Nat} {r : RequestRec} {k : Int} (h : Dispatches p server r k) :
    ∃ s uri e, p.servers[server]? = some s ∧ r.uri = some uri ∧ e ∈ s.aliases ∧
      fold e.2.virtual_path.str.val <+: fold uri.val ∧ hostKey p.table e.2.host = k := by
  obtain ⟨s, order, d, env, hs, hperm, hd⟩ := h
  obtain ⟨uri, host, huri, hsel, rfl⟩ := aspNetHandler_selected hd
  rw [selectHost_eq_find] at hsel
  obtain ⟨m, hfind, rfl⟩ := Option.map_eq_some_iff.mp hsel
  obtain ⟨e, he, rfl⟩ := List.mem_map.mp (hperm.mem_iff.mp (List.mem_of_find?_eq_some hfind))
  exact ⟨s, uri, e, hs, huri, he, (covers_iff uri e.2).mp (List.find?_some hfind), rfl⟩

/-- The alias is that of the last mount of its virtual path. -/
theorem ServerInv.mount {c : Interop} {p : Process} (hi : ServerInv c p) {server : Nat} {s : SrvConf}
    (hs : p.servers[server]? = some s) {e : HashKey × Alias} (he : e ∈ s.aliases) :
    ∃ m, lastMount p server e.2.virtual_path.str = some m ∧ m.uri = e.2.virtual_path.str ∧ m.host = some e.2.host ∧
      m ∈ p.mounts := by
  have halias := hi.keys.records.aliases server s hs e.2.virtual_path.str
  rw [(hi.keyed s (List.mem_of_getElem? hs)).alias he, Option.map_some] at halias
  obtain ⟨m, hm, hhost⟩ := Option.bind_eq_some_iff.mp halias.symm
  have hmem := List.mem_filter.mp (List.mem_of_getLast? hm)
  exact ⟨m, hm, (of_decide_eq_true hmem.2).2.2, hhost, hmem.1⟩

/-! ## Runs -/

section
variable {c : Interop} (S : Server c)

theorem Server.inv : ServerInv c S.process :=
  serverInv_postConfig (serverInv_run (serverInv_new c) S.life.ran) S.ready

/-- Every key has an entry, which is connected. -/
theorem Server.allReady : AllReady S.process :=
  (keysInv_postConfig (keysInv_run (keysInv_new c) S.life.ran).1 S.ready).2.2 rfl

/-- The keys of the records. -/
def Server.keys : List Int := S.process.table.records.map HostConf.host_key

theorem Server.keys_given {k : Int} (h : k ∈ S.keys) :
    ∃ (i : Nat) (r : HostConf), S.process.table.records[i]? = some r ∧ r.host_key = k ∧ k ≠ -1 := by
  obtain ⟨f, l, -, -, hrange, -⟩ := S.allReady
  obtain ⟨r, hr, rfl⟩ := List.mem_map.mp h
  obtain ⟨i, hi⟩ := List.mem_iff_getElem?.mp hr
  have hkey := hrange i r hi
  exact ⟨i, r, hi, rfl, by omega⟩

theorem Server.dispatched_key {server : Nat} {r : RequestRec} {k : Int} (h : Dispatches S.process server r k) :
    k ∈ S.keys := by
  obtain ⟨s, uri, e, hs, -, he, -, rfl⟩ := dispatches_alias h
  have hlt := S.inv.keys.pointed s (List.mem_of_getElem? hs) e he
  rw [hostKey_of_record (List.getElem?_eq_getElem hlt)]
  exact List.mem_map_of_mem (List.getElem_mem hlt)

theorem Server.servedInv : ServedInv 0 (.quiet S.process.lists) (fun _ => none) S.keys where
  each := (isolationEach 0).inv_quiet S.inv.prepared.isolated fun _ _ => S.inv.prepared.lengths
  performing t p hp := by cases hp
  keys k hk := by
    obtain ⟨i, r, hr, hkey, hne⟩ := S.keys_given hk
    have hi : hostKey S.process.table i = k := (hostKey_of_record hr).trans hkey
    rw [← hi] at hne ⊢
    exact S.inv.connected i hne
  begun t call s hκ := by cases hκ

/-- What comes from the handler is for keys of the table. -/
theorem served_of_handler {p : Process} : ∀ {as : List FAction} {s : FConfig} {κ : Calling Call Factory} {keys : List Int},
    (∀ server r k, Dispatches p server r k → k ∈ keys) → (∀ a ∈ as, FromHandler p a) → Served 0 s κ keys as
  | [], _, _, _, _, _ => trivial
  | a :: as, s, κ, keys, hkeys, has => by
    refine ⟨?_, ?_⟩
    · have ha := has a (List.mem_cons_self ..)
      cases a with
      | start t call =>
        cases call with
        | handleHostRequest k rr =>
          obtain ⟨server, r, hd⟩ := ha
          exact hkeys server r k hd
        | hostFinalized k h => trivial
        | createHost v q svr => exact ha.elim
        | destroy => exact ha
      | _ => trivial
    · split
      · trivial
      · exact served_of_handler (fun server r k hd => List.mem_append_left _ (hkeys server r k hd))
          fun a ha => has a (List.mem_cons_of_mem _ ha)

theorem Server.served : Served 0 (.quiet S.process.lists) (fun _ => none) S.keys S.actions :=
  served_of_handler (fun _ _ _ => S.dispatched_key) S.passed

theorem Server.now_inv : ∃ keys, ServedInv 0 S.now S.calling keys := by
  have hserved : Served 0 (.quiet S.process.lists) (fun _ => none) S.keys (S.actions ++ []) := by
    rw [List.append_nil]
    exact S.served
  obtain ⟨keys, h, -⟩ := S.servedInv.along hserved S.ran
  exact ⟨keys, h⟩

/-- The paths of a record's key, at any time. -/
theorem Server.paths {i : Nat} {r : HostConf} (hr : S.process.table.records[i]? = some r) :
    item S.now.shared.hostURI r.host_key = .ok (c.widen r.virtual_path.str) ∧
      item S.now.shared.hostDir r.host_key = .ok (replaceSlashes (c.widen r.physical_path.str)) := by
  obtain ⟨f, l, hf, -, hrange, -⟩ := S.allReady
  have hkey := hrange i r hr
  obtain ⟨f', hf', -, huri, hdir⟩ := S.inv.keys.right.paths i r hr (by omega)
  rw [hf] at hf'
  cases hf'
  have hlists : S.process.lists = f := by rw [Process.lists, hf]; rfl
  have hgrown := (S.servedInv.grown S.served S.ran).1
  rw [hlists] at hgrown
  exact ⟨hgrown.uri _ _ huri, hgrown.dir _ _ hdir⟩

/-- What is dispatched was made for its key. -/
theorem Server.invoked : HostsInv S.now.shared ∧
    ∀ t site k h rr, nextOp S.now t = some (.handleRequest site k h rr) → .created k h ∈ S.now.shared.events :=
  invoked_made S.inv.prepared.hosts ((S.servedInv.meets S.served).mono isolating_serving) S.ran

/-- The last mount of a virtual path that begins the URI, and what the factory
keeps under its key. -/
theorem Server.mounted {server : Nat} {r : RequestRec} {k : Int} (h : Dispatches S.process server r k) :
    ∃ uri m, r.uri = some uri ∧ lastMount S.process server m.uri = some m ∧ fold m.uri.val <+: fold uri.val ∧
      (∃ i, m.host = some i ∧ hostKey S.process.table i = k) ∧
      item S.now.shared.hostURI k = .ok (c.widen m.uri) ∧
      item S.now.shared.hostDir k = .ok (replaceSlashes (c.widen m.root)) := by
  obtain ⟨s, uri, e, hs, huri, he, hbegins, hkey⟩ := dispatches_alias h
  obtain ⟨m, hlast, hm, hhost, hmem⟩ := S.inv.mount hs he
  obtain ⟨g, i, rec, hg, hi, hrec, hshows⟩ := S.inv.keys.records.interned.reads m hmem
  obtain rfl : i = e.2.host := Option.some.inj (hi.symm.trans hhost)
  have htable : S.process.table = g := by rw [Process.table, hg]; rfl
  rw [← htable] at hrec
  rw [hostKey_of_record hrec] at hkey
  have hpaths := S.paths hrec
  rw [hkey, hshows.virtual_path, hshows.physical_path] at hpaths
  exact ⟨uri, m, huri, by rw [hm]; exact hlast, by rw [hm]; exact hbegins,
    ⟨e.2.host, hi, (hostKey_of_record hrec).trans hkey⟩, hpaths⟩

/-- A host is configured for the key it was made for, and the paths of that. -/
theorem Server.configured_for {k : Int} {uri dir : WString} (huri : item S.now.shared.hostURI k = .ok uri)
    (hdir : item S.now.shared.hostDir k = .ok dir) {h : HostId} {k' : Int} {u d : WString}
    (hmade : .created k h ∈ S.now.shared.events) (hconf : .configured k' h u d ∈ S.now.shared.events) :
    k' = k ∧ u = uri ∧ d = dir := by
  obtain ⟨hmade', hu, hd⟩ := S.invoked.1.configured k' h u d hconf
  obtain rfl := S.invoked.1.one_key k' k h hmade' hmade
  exact ⟨rfl, Except.ok.inj (hu.symm.trans huri), Except.ok.inj (hd.symm.trans hdir)⟩

theorem Server.madeRight : MadeRight S.now.shared := S.servedInv.madeRight S.served S.ran S.inv.prepared.made

/-- A host was made with the paths of the key it was made for. -/
theorem Server.created_with {k : Int} {uri dir : WString} (huri : item S.now.shared.hostURI k = .ok uri)
    (hdir : item S.now.shared.hostDir k = .ok dir) {h : HostId} (hmade : .created k h ∈ S.now.shared.events)
    (u d : WString) : ⟨k, h, u, d⟩ ∈ S.now.shared.made ↔ u = uri ∧ d = dir := by
  have hright : ∀ {u d : WString}, ⟨k, h, u, d⟩ ∈ S.now.shared.made → u = uri ∧ d = dir := by
    intro u d hx
    obtain ⟨hu, hd⟩ := S.madeRight.paths _ hx
    exact ⟨Except.ok.inj (hu.symm.trans huri), Except.ok.inj (hd.symm.trans hdir)⟩
  refine ⟨hright, ?_⟩
  rintro ⟨rfl, rfl⟩
  obtain ⟨u, d, hx⟩ := S.madeRight.recorded k h hmade
  obtain ⟨rfl, rfl⟩ := hright hx
  exact hx

theorem Server.hostOf {m : MountRecord} {k : Int} (huri : item S.now.shared.hostURI k = .ok (c.widen m.uri))
    (hdir : item S.now.shared.hostDir k = .ok (replaceSlashes (c.widen m.root))) {h : HostId}
    (hmade : .created k h ∈ S.now.shared.events) : HostOf S m k h :=
  ⟨hmade, S.created_with huri hdir hmade, fun _ _ _ hconf => S.configured_for huri hdir hmade hconf⟩

/-- For every configuration of a process and every run of requests, restarts and
finalizers after it: a request that the handler passes on goes to hosts made with
the paths of the last mount of a virtual path which begins the URI, and configured
for no others. -/
theorem served_by_mount {server : Nat} {r : RequestRec} {k : Int} (h : Dispatches S.process server r k) :
    ∃ uri m, r.uri = some uri ∧ lastMount S.process server m.uri = some m ∧ fold m.uri.val <+: fold uri.val ∧
      ServedBy S m k := by
  obtain ⟨uri, m, huri, hlast, hbegins, hrecord, hpaths⟩ := S.mounted h
  obtain ⟨keys, hnow⟩ := S.now_inv
  refine ⟨uri, m, huri, hlast, hbegins, hrecord, ?_, fun _ => S.hostOf hpaths.1 hpaths.2, ?_⟩
  · intro t rr s site k' obj rr' hκ ht
    obtain rfl := hnow.ownKey hκ ht
    exact ⟨rfl, S.invoked.2 t site k' obj rr' ht⟩
  · intro t u d ht
    obtain ⟨hu, hd⟩ := hnow.makes ht
    exact ⟨Except.ok.inj (hu.symm.trans hpaths.1), Except.ok.inj (hd.symm.trans hpaths.2)⟩

end

/-! ## One application -/

/-- `AspNetMount /app C:/app` in the main server. -/
def appLife : Life utf8Interop where
  steps := [.preConfig 1, .mount 0 appMount]
  last := (run utf8Interop newProcess [.preConfig 1, .mount 0 appMount]).get (by decide +kernel)
  ran := by rw [Option.some_get]

def appStarted : Option (Int × List Bytes × Process) :=
  postConfig utf8Interop appLife.last .started [0] [List.replicate 12 .ok]

theorem appStarted_isSome : appStarted.isSome = true := by decide +kernel

def appProcess : Process := (appStarted.get appStarted_isSome).2.2

def appRequest : RequestRec := siteRequest (cstr (lit "/App/x.aspx"))

theorem appRequest_dispatched : Dispatches appProcess 0 appRequest 0 :=
  ⟨(appProcess.servers[0]?).get (by decide +kernel), _, siteDirconf, siteEnv, by rw [Option.some_get], .refl _,
    by decide +kernel⟩

/-- A request for it has found its host. -/
def appServer : Server utf8Interop where
  life := appLife
  engine := .started
  order := [0]
  scripts := [List.replicate 12 .ok]
  log := (appStarted.get appStarted_isSome).2.1
  process := appProcess
  ready := by
    have hstatus : (appStarted.get appStarted_isSome).1 = OK := by decide +kernel
    have hall : appStarted = some (appStarted.get appStarted_isSome) := (Option.some_get _).symm
    rw [← hstatus]
    exact hall
  actions := [.start 1 (.handleHostRequest 0 7), .step 1 .ok]
  passed := by
    intro a ha
    rcases List.mem_cons.mp ha with rfl | ha
    · exact ⟨0, appRequest, appRequest_dispatched⟩
    · cases List.mem_singleton.mp ha
      trivial
  now := (Core.run exec factoryTasks (.quiet appProcess.lists)
    [.start 1 (.handleHostRequest 0 7), .step 1 .ok]).get (by decide +kernel)
  ran := by rw [Option.some_get]

theorem served_by_mount_app : nextOp appServer.now 1 = some (.handleRequest .first 0 0 7) ∧
    ∃ uri m, appRequest.uri = some uri ∧ lastMount appServer.process 0 m.uri = some m ∧
      fold m.uri.val <+: fold uri.val ∧ ServedBy appServer m 0 :=
  ⟨by decide +kernel, served_by_mount appServer appRequest_dispatched⟩

end ModAspNet.L6.Passes
