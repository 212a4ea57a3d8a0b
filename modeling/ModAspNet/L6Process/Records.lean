import ModAspNet.L6Process.Passes

/-!
# Host records

`docs/introduction.html:153-155` promises that each `AspNetMount` is created
only once. The records live in the process pool and are found again by the
combined string of both paths, in every server and every pass.

* `recordsInv_step`: a step names no pair of paths anew and keeps each alias
  table at the last mount of each virtual path.
* `records_interned`: two mounts of a process have one record exactly when both
  paths are equal, whatever passes, servers and failed directives lie between.
-/
namespace ModAspNet.L6.Passes

open ModAspNet.L1.CStr ModAspNet.L1.Managed ModAspNet.L2.Mount
open ModAspNet.L4.HostFactory (Exn Choice Factory)
open ModAspNet.Core

/-! ## The property -/

/-- The last successful mount of `v` in a server of the current pass. -/
def lastMount (p : Process) (server : Nat) (v : CString) : Option MountRecord :=
  (p.mounts.filter fun m => decide (m.pass = p.pass ∧ m.server = server ∧ m.uri = v)).getLast?

/-- The record shows these two paths, from the process pool. -/
structure HostConf.Shows (r : HostConf) (v root : CString) : Prop where
  virtual_path : r.virtual_path.str = v
  physical_path : r.physical_path.str = root
  lasting : r.virtual_path.pool = .process ∧ r.physical_path.pool = .process

structure Interned (p : Process) : Prop where
  same : ∀ m ∈ p.mounts, ∀ m' ∈ p.mounts, m.host = m'.host ↔ m.uri = m'.uri ∧ m.root = m'.root
  reads : ∀ m ∈ p.mounts, ∃ g i r, p.global_conf = some g ∧ m.host = some i ∧ g.records[i]? = some r ∧
    HostConf.Shows r m.uri m.root
  aliases : ∀ server s, p.servers[server]? = some s → ∀ v,
    (SrvConf.alias s v).map Alias.host = (lastMount p server v).bind MountRecord.host
  /-- no key of a table and no path of an alias outlives its pool -/
  alive : ∀ s ∈ p.servers, ∀ e ∈ s.aliases, e.1.1.Alive p.pass ∧ e.2.virtual_path.Alive p.pass

/-- Of a record only the key can change. -/
def RecordsKept (p p' : Process) : Prop :=
  ∀ g, p.global_conf = some g → ∃ g', p'.global_conf = some g' ∧
    ∀ (i : Nat) (r : HostConf), g.records[i]? = some r → ∃ k, g'.records[i]? = some { r with host_key := k }

theorem RecordsKept.refl (p : Process) : RecordsKept p p := fun g hg => ⟨g, hg, fun _ r hr => ⟨r.host_key, hr⟩⟩

theorem RecordsKept.trans {p p' p'' : Process} (h : RecordsKept p p') (h' : RecordsKept p' p'') : RecordsKept p p'' := by
  intro g hg
  obtain ⟨g', hg', hk⟩ := h g hg
  obtain ⟨g'', hg'', hk'⟩ := h' g' hg'
  refine ⟨g'', hg'', fun i r hr => ?_⟩
  obtain ⟨k, hr'⟩ := hk i r hr
  obtain ⟨k', hr''⟩ := hk' i _ hr'
  exact ⟨k', hr''⟩

/-! ## Tables whose keys are assigned -/

section
variable {g : HostTable} {host : HostPtr} {k : Int}

theorem getElem?_setKey (i : Nat) :
    (setKey g host k).records[i]? = (g.records[i]?).map fun r => if host = i then { r with host_key := k } else r := by
  rw [setKey, List.getElem?_modify]
  split <;> rfl

/-- The table after some keys were assigned. -/
structure Rekeyed (g g' : HostTable) : Prop where
  hosts : g'.hosts = g.hosts
  record : ∀ (i : Nat) (r : HostConf), g.records[i]? = some r → ∃ k, g'.records[i]? = some { r with host_key := k }
  length : g'.records.length = g.records.length

theorem Rekeyed.refl (g : HostTable) : Rekeyed g g := ⟨rfl, fun _ r h => ⟨r.host_key, h⟩, rfl⟩

theorem Rekeyed.trans {g g' g'' : HostTable} (h : Rekeyed g g') (h' : Rekeyed g' g'') : Rekeyed g g'' := by
  refine ⟨h'.hosts.trans h.hosts, fun i r hr => ?_, h'.length.trans h.length⟩
  obtain ⟨k, hk⟩ := h.record i r hr
  obtain ⟨k', hk'⟩ := h'.record i _ hk
  exact ⟨k', hk'⟩

theorem rekeyed_setKey : Rekeyed g (setKey g host k) := by
  refine ⟨rfl, fun i r hr => ?_, by rw [setKey, List.length_modify]⟩
  rw [getElem?_setKey, hr, Option.map_some]
  split
  · exact ⟨k, rfl⟩
  · exact ⟨r.host_key, rfl⟩

end

/-- What is read from a table other than keys is the same after keys were
assigned. -/
theorem Rekeyed.map_eq {α : Type} {g g' : HostTable} (h : Rekeyed g g') (f : HostConf → α)
    (hf : ∀ r k, f { r with host_key := k } = f r) : g'.records.map f = g.records.map f := by
  apply List.ext_getElem?
  intro i
  rw [List.getElem?_map, List.getElem?_map]
  cases hr : g.records[i]? with
  | some r =>
    obtain ⟨k, hk⟩ := h.record i r hr
    rw [hk, Option.map_some, Option.map_some, hf]
  | none =>
    have hlen := List.getElem?_eq_none_iff.mp hr
    rw [List.getElem?_eq_none_iff.mpr (by rw [h.length]; exact hlen), Option.map_none]

theorem Rekeyed.names_eq {g g' : HostTable} (h : Rekeyed g g') : g'.names = g.names :=
  h.map_eq HostConf.paths fun _ _ => rfl

theorem Rekeyed.wf {g g' : HostTable} (h : Rekeyed g g') (hwf : g.WF) : g'.WF where
  made r hr := by
    obtain ⟨i, hi, rfl⟩ := List.getElem_of_mem hr
    have hlt : i < g.records.length := h.length ▸ hi
    obtain ⟨k, hk⟩ := h.record i _ (List.getElem?_eq_getElem hlt)
    obtain ⟨v, p, hvp⟩ := hwf.made _ (List.getElem_mem hlt)
    rw [List.getElem?_eq_getElem hi, Option.some.injEq] at hk
    rw [hk]
    exact ⟨v, p, by rw [hvp]; rfl⟩
  entries := by
    have hview := h.map_eq (fun r => (r.virtual_path, r.combined_len)) fun _ _ => rfl
    have hzip : ∀ rs : List HostConf, rs.zipIdx.map (fun x => ((x.1.virtual_path, x.1.combined_len), x.2)) =
        (rs.map fun r => (r.virtual_path, r.combined_len)).zipIdx := by
      intro rs; rw [List.zipIdx_map]; rfl
    rw [h.hosts, hwf.entries, hzip, hzip, hview]
  nodup := by rw [h.names_eq]; exact hwf.nodup

theorem createHosts_rekeyed (c : Interop) (server : Nat) :
    ∀ {items : List HostPtr} {scripts : List (List Choice)} {g : HostTable} {f : Factory} {r : Created},
      createHosts c server items scripts g f = some r → Rekeyed g r.table
  | [], _, g, f, r, h => by cases h; exact .refl g
  | host :: items, scripts, g, f, r, h => by
    unfold createHosts at h
    split at h
    · cases h
    · split at h
      · exact createHosts_rekeyed c server h
      · split at h
        · cases h
        · split at h
          · cases h
          · cases h; exact .refl g
          · split at h
            · cases h; exact rekeyed_setKey
            · obtain ⟨rest, hrest, rfl⟩ := Option.map_eq_some_iff.mp h
              have hrek : Rekeyed _ rest.table := createHosts_rekeyed c server hrest
              exact rekeyed_setKey.trans hrek

/-! ## The alias tables -/

theorem keyView_alias (pool : Pool) (v root : CString) :
    keyView (⟨pool, combined v root, 0⟩, v.length) = (v.length, v.val) := by
  simp [keyView, Ptr.bytes, combined, CString.length]

theorem keyView_plain (pool : Pool) (v : CString) : keyView (⟨pool, v.val, 0⟩, v.length) = (v.length, v.val) := by
  simp [keyView, Ptr.bytes, CString.length]

/-- Setting an alias and reading one. -/
theorem alias_set (s : SrvConf) (m : Alias) {pool : Pool} {v root w : CString}
    (hm : m.virtual_path = ⟨pool, combined v root, 0⟩) :
    SrvConf.alias ⟨aprHashSet s.aliases m.virtual_path v.length m⟩ w = if w = v then some m else SrvConf.alias s w := by
  simp only [SrvConf.alias, aprHashGet, aprHashSet, keyView_plain]
  split
  · rename_i h
    subst h
    rw [← keyView_alias pool w root, ← hm, Assoc.get_set_self]
  · rename_i h
    refine Assoc.get_set_of_ne _ _ _ ?_
    rw [hm, keyView_alias]
    exact fun he => h (CString.ext_val (Prod.mk.inj he).2).symm

/-- The entries of a table after an alias was set. -/
theorem alias_alive {now : Nat} {s : SrvConf} {m : Alias} {n : Nat}
    (hs : ∀ e ∈ s.aliases, e.1.1.Alive now ∧ e.2.virtual_path.Alive now) (hm : m.virtual_path.Alive now) :
    ∀ e ∈ aprHashSet s.aliases m.virtual_path n m, e.1.1.Alive now ∧ e.2.virtual_path.Alive now := by
  intro e he
  rcases Assoc.mem_set he with ⟨hv, hk | ⟨w, hw⟩, -⟩ | he
  · exact ⟨by rw [hk]; exact hm, by rw [hv]; exact hm⟩
  · exact ⟨(hs _ hw).1, by rw [hv]; exact hm⟩
  · exact hs e he

/-! ## One step -/

/-- The merge returns the virtual host's own table. -/
theorem fixupVirtualHosts_eq (p : Process) : fixupVirtualHosts p = p := by
  unfold fixupVirtualHosts
  split
  · rfl
  · rename_i main hosts hservers
    have hid : hosts.map (mergeAspNetSrvconf main) = hosts := by
      rw [show mergeAspNetSrvconf main = id from rfl, List.map_id]
    rw [hid, ← hservers]

structure RecordsInv (p : Process) : Prop where
  wf : ∀ g, p.global_conf = some g → g.WF
  named : ∀ m ∈ p.mounts, ∃ g i, p.global_conf = some g ∧ m.host = some i ∧ g.names[i]? = some (m.uri, m.root)
  passed : ∀ m ∈ p.mounts, m.pass ≤ p.pass
  aliases : ∀ server s, p.servers[server]? = some s → ∀ v,
    (SrvConf.alias s v).map Alias.host = (lastMount p server v).bind MountRecord.host
  alive : ∀ s ∈ p.servers, ∀ e ∈ s.aliases, e.1.1.Alive p.pass ∧ e.2.virtual_path.Alive p.pass

theorem recordsInv_preConfig {p : Process} (hi : RecordsInv p) (n : Nat) :
    RecordsInv (preConfig p n) ∧ RecordsKept p (preConfig p n) := by
  have hconf : ∀ g, p.global_conf = some g → (preConfig p n).global_conf = some g := by
    intro g hg; rw [preConfig, hg]; rfl
  refine ⟨⟨fun g hg => ?_, fun m hm => ?_, fun m hm => Nat.le_succ_of_le (hi.passed m hm), fun server s hs v => ?_,
    fun s hs => ?_⟩, fun g hg => ⟨g, hconf g hg, fun i r hr => ⟨r.host_key, hr⟩⟩⟩
  · cases hp : p.global_conf with
    | none => rw [preConfig, hp] at hg; cases hg; exact wf_empty
    | some g₀ => rw [hconf g₀ hp] at hg; cases hg; exact hi.wf _ hp
  · obtain ⟨g, i, hg, hh, hname⟩ := hi.named m hm
    exact ⟨g, i, hconf g hg, hh, hname⟩
  · have hnone : lastMount (preConfig p n) server v = none := by
      rw [lastMount, List.getLast?_eq_none_iff, List.filter_eq_nil_iff]
      intro m hm
      have hle : m.pass ≤ p.pass := hi.passed m hm
      simp only [decide_eq_true_eq, not_and]
      intro hpass
      have heq : m.pass = p.pass + 1 := hpass
      omega
    obtain rfl := List.eq_of_mem_replicate (List.mem_of_getElem? hs)
    rw [hnone]; rfl
  · intro e he
    obtain rfl := List.eq_of_mem_replicate hs
    cases he

/-- What a mount does, whether it succeeds or not. -/
theorem mount_eq {p p' : Process} {server : Nat} {a : MountArgs} (h : mount p server a = some p') :
    ∃ g s, p.global_conf = some g ∧ p.servers[server]? = some s ∧ p' = { p with
      global_conf := some (mountCmd p.pass g s a).1
      servers := p.servers.set server (mountCmd p.pass g s a).2.1
      mounts := p.mounts ++ (resolved a).toList.map fun root =>
        ⟨p.pass, server, a.uri, root, (SrvConf.alias (mountCmd p.pass g s a).2.1 a.uri).map Alias.host⟩ } := by
  unfold mount at h
  split at h
  · rename_i g s hg hserver
    cases h
    exact ⟨g, s, hg, hserver, rfl⟩
  · cases h

/-- A mount that fails changes nothing. -/
theorem mount_failed {p p' : Process} {server : Nat} {a : MountArgs} (hf : ∀ root, ¬ a.Succeeds root)
    (h : mount p server a = some p') : p' = p := by
  obtain ⟨g, s, hg, hs, rfl⟩ := mount_eq h
  obtain ⟨hg', hs'⟩ := mountCmd_failed p.pass g s a hf
  have hnone : resolved a = none := Option.eq_none_iff_forall_ne_some.mpr fun root hr =>
    hf root (resolved_eq_some.mp hr)
  obtain ⟨hlt, rfl⟩ := List.getElem?_eq_some_iff.mp hs
  rw [hg', hs', hnone, ← hg, List.set_getElem_self]
  simp

theorem lastMount_append {p : Process} {g : Option HostTable} {servers : List SrvConf} {m : MountRecord}
    (server : Nat) (v : CString) :
    lastMount { p with global_conf := g, servers := servers, mounts := p.mounts ++ [m] } server v =
      if m.pass = p.pass ∧ m.server = server ∧ m.uri = v then some m else lastMount p server v := by
  simp only [lastMount, List.filter_append]
  split
  · rename_i h; simp [h]
  · rename_i h; simp [h]

theorem recordsInv_mount {p p' : Process} (hi : RecordsInv p) {server : Nat} {a : MountArgs}
    (h : mount p server a = some p') : RecordsInv p' ∧ RecordsKept p p' := by
  by_cases hs : ∃ root, a.Succeeds root
  · obtain ⟨root, hroot⟩ := hs
    obtain ⟨g, s, hg, hserver, rfl⟩ := mount_eq h
    have hwf := hi.wf g hg
    obtain ⟨m, hhost, hpath, htable⟩ := mountCmd_host hwf p.pass s a hroot
    have hnames := mountCmd_names hwf p.pass s a hroot
    have hset : ∀ v, SrvConf.alias (mountCmd p.pass g s a).2.1 v = if v = a.uri then some m else SrvConf.alias s v := by
      intro v; rw [htable, alias_set s m hpath]
    have hlive : m.virtual_path.Alive p.pass := .inr (by rw [hpath])
    rw [resolved_eq_some.mpr hroot, hset, if_pos rfl]
    refine ⟨⟨?_, ?_, ?_, ?_, ?_⟩, fun g₀ hg₀ => ?_⟩
    · rintro g₀ ⟨⟩; exact mountCmd_wf hwf p.pass s a
    · intro m' hm'
      rcases List.mem_append.mp hm' with hm' | hm'
      · obtain ⟨g₀, i, hg₀, hh, hname⟩ := hi.named m' hm'
        rw [hg] at hg₀; cases hg₀
        exact ⟨_, i, rfl, hh, by rw [hnames]; exact Intern.named_of_prefix (Intern.intern_prefix _ _) hname⟩
      · rw [Option.toList_some, List.map_singleton, List.mem_singleton] at hm'
        subst hm'
        exact ⟨_, _, rfl, congrArg some hhost, by rw [hnames]; exact Intern.intern_named _ _⟩
    · intro m' hm'
      rcases List.mem_append.mp hm' with hm' | hm'
      · exact hi.passed m' hm'
      · rw [Option.toList_some, List.map_singleton, List.mem_singleton] at hm'
        subst hm'
        exact le_refl _
    · intro server' s' hs' v
      rw [Option.toList_some, List.map_singleton, lastMount_append]
      by_cases heq : server = server'
      · subst heq
        rw [List.getElem?_set_self (List.getElem?_eq_some_iff.mp hserver).1] at hs'
        cases hs'
        rw [hset]
        by_cases hv : v = a.uri
        · rw [if_pos hv, if_pos ⟨rfl, rfl, hv.symm⟩]; rfl
        · rw [if_neg hv, if_neg fun h => hv h.2.2.symm]; exact hi.aliases server s hserver v
      · rw [List.getElem?_set_ne heq] at hs'
        rw [if_neg fun h => heq h.2.1]
        exact hi.aliases server' s' hs' v
    · intro s' hs'
      rcases List.mem_or_eq_of_mem_set hs' with hs' | rfl
      · exact hi.alive s' hs'
      · rw [htable]; exact alias_alive (hi.alive s (List.mem_of_getElem? hserver)) hlive
    · rw [hg] at hg₀; cases hg₀
      refine ⟨_, rfl, fun i r hr => ⟨r.host_key, Intern.named_of_prefix (mountCmd_records p.pass g s a) hr⟩⟩
  · rw [mount_failed (fun root hr => hs ⟨root, hr⟩) h]
    exact ⟨hi, .refl p⟩

/-- What `asp_net_post_config` leaves: keys may be assigned, calls are recorded. -/
theorem postConfig_rekeyed {c : Interop} {p p' : Process} {e : EngineStart} {order : List HostPtr}
    {scripts : List (List Choice)} {status : Int} {log : List Bytes}
    (h : postConfig c p e order scripts = some (status, log, p')) :
    ∃ g g' f creates, p.global_conf = some g ∧ Rekeyed g g' ∧
      p' = { p with global_conf := some g', factory := f, creates := p.creates ++ creates } := by
  unfold postConfig at h
  split at h
  · cases h
  · rename_i g hg
    split at h
    · rename_i log f _
      cases h
      exact ⟨g, g, f, [], hg, .refl g, by rw [List.append_nil, ← hg]⟩
    · split at h
      · obtain ⟨r, hr, hp⟩ := Option.map_eq_some_iff.mp h
        cases hp
        exact ⟨g, r.table, some r.factory, r.creates, hg, createHosts_rekeyed c p.pass hr, rfl⟩
      · cases h

theorem recordsInv_postConfig {c : Interop} {p p' : Process} (hi : RecordsInv p) {e : EngineStart}
    {order : List HostPtr} {scripts : List (List Choice)} {status : Int} {log : List Bytes}
    (h : postConfig c p e order scripts = some (status, log, p')) : RecordsInv p' ∧ RecordsKept p p' := by
  obtain ⟨g, g', f, creates, hg, hk, rfl⟩ := postConfig_rekeyed h
  refine ⟨⟨?_, fun m hm => ?_, hi.passed, hi.aliases, hi.alive⟩, fun g₀ hg₀ => ?_⟩
  · rintro g₀ ⟨⟩; exact hk.wf (hi.wf g hg)
  · obtain ⟨g₀, i, hg₀, hh, hname⟩ := hi.named m hm
    rw [hg] at hg₀; cases hg₀
    exact ⟨g', i, rfl, hh, by rw [hk.names_eq]; exact hname⟩
  · rw [hg] at hg₀; cases hg₀
    exact ⟨g', rfl, hk.record⟩

theorem recordsInv_step {c : Interop} {p p' : Process} {a : Step} (hi : RecordsInv p) (h : step c p a = some p') :
    RecordsInv p' ∧ RecordsKept p p' := by
  cases a with
  | preConfig n => cases h; exact recordsInv_preConfig hi n
  | mount server a => exact recordsInv_mount hi h
  | fixupVirtualHosts =>
    cases h
    rw [fixupVirtualHosts_eq]
    exact ⟨hi, .refl p⟩
  | postConfig e order scripts =>
    obtain ⟨⟨status, log, p₁⟩, hr, rfl⟩ := Option.map_eq_some_iff.mp h
    exact recordsInv_postConfig hi hr

/-! ## Runs -/

theorem recordsInv_new : RecordsInv newProcess where
  wf g hg := by cases hg
  named m hm := by cases hm
  passed m hm := by cases hm
  aliases server s hs := by simp [newProcess] at hs
  alive s hs := by cases hs

theorem recordsInv_run {c : Interop} {as : List Step} {p p' : Process} (hi : RecordsInv p)
    (h : run c p as = some p') : RecordsInv p' ∧ RecordsKept p p' :=
  run_inv (I := fun q => RecordsInv q ∧ RecordsKept p q)
    (fun _ _ _ hq ha => (recordsInv_step hq.1 ha).imp_right hq.2.trans) ⟨hi, .refl p⟩ h

/-- A record by its name. -/
theorem shows_of_name {g : HostTable} (hwf : g.WF) {i : Nat} {v root : CString} (h : g.names[i]? = some (v, root)) :
    ∃ r, g.records[i]? = some r ∧ HostConf.Shows r v root := by
  rw [HostTable.names, List.getElem?_map] at h
  obtain ⟨r, hr, hpaths⟩ := Option.map_eq_some_iff.mp h
  obtain ⟨v', p', hmade⟩ := hwf.made r (List.mem_of_getElem? hr)
  refine ⟨r, hr, (Prod.mk.inj hpaths).1, (Prod.mk.inj hpaths).2, ?_⟩
  rw [hmade]; exact ⟨rfl, rfl⟩

theorem RecordsInv.interned {p : Process} (hi : RecordsInv p) : Interned p where
  same m hm m' hm' := by
    obtain ⟨g, i, hg, hh, hname⟩ := hi.named m hm
    obtain ⟨g', i', hg', hh', hname'⟩ := hi.named m' hm'
    rw [hg] at hg'; cases hg'
    rw [hh, hh', Option.some.injEq, Intern.name_eq_iff (hi.wf g hg).nodup hname hname', Prod.mk.injEq]
  reads m hm := by
    obtain ⟨g, i, hg, hh, hname⟩ := hi.named m hm
    obtain ⟨r, hr, hshows⟩ := shows_of_name (hi.wf g hg) hname
    exact ⟨g, i, r, hg, hh, hr, hshows⟩
  aliases := hi.aliases
  alive := hi.alive

/-- In every life of a process: mounts have one record exactly when both paths
are equal, the records read back the paths and go on to, the alias tables are
those of the last mounts, and a mount that fails changes nothing. -/
theorem records_interned (c : Interop) (L : Life c) :
    Interned L.last ∧
      (∀ later p', run c L.last later = some p' → Interned p' ∧ RecordsKept L.last p') ∧
      ∀ server a p', (∀ root, ¬ a.Succeeds root) → mount L.last server a = some p' → p' = L.last := by
  have hinv := (recordsInv_run recordsInv_new L.ran).1
  refine ⟨hinv.interned, fun later p' h => ?_, fun server a p' hf h => mount_failed hf h⟩
  obtain ⟨hi', hk⟩ := recordsInv_run hinv h
  exact ⟨hi'.interned, hk⟩

end ModAspNet.L6.Passes
