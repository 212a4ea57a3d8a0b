import ModAspNet.L6Process.Records

/-!
# Host keys

`asp_net_post_config` creates a host for each record whose key is -1, and
stores the key `CreateHost` returns: the position of the paths in the lists of
the factory. A creation that fails leaves its entries in the lists and the key
at -1, and ends `asp_net_post_config` with 1.

* `matches_create`: one call of `CreateHost` keeps keys and lists together.
* `createHosts_spec`: so does the loop, which calls `CreateHost` for no record
  that has a key, and reaches its end only when all have one.
* `host_keys_right`: in every life of a process.
-/
namespace ModAspNet.L6.Passes

open ModAspNet.L1.CStr ModAspNet.L1.Managed ModAspNet.L2.DirConf ModAspNet.L2.Mount ModAspNet.L3.Handler
open ModAspNet.L4.HostFactory (Exn Choice Factory newFactory createHost exec enter item item_eq_ok Lists
  CreateHostRuns createHost_lists)
open ModAspNet.Core

/-! ## The property -/

/-- The host records; none before the first pass. -/
def Process.table (p : Process) : HostTable := p.global_conf.getD ⟨[], []⟩

/-- The call gave its record a key. -/
def Settles (r : Except Exn Int) : Prop := ∃ k, r = .ok k ∧ k ≠ -1

structure KeysRight (c : Interop) (p : Process) : Prop where
  distinct : ∀ i j, hostKey p.table i ≠ -1 → hostKey p.table i = hostKey p.table j → i = j
  /-- a key is the position of the record's paths in the factory's lists -/
  paths : ∀ (i : Nat) (r : HostConf), p.table.records[i]? = some r → r.host_key ≠ -1 →
    ∃ f, p.factory = some f ∧ 0 ≤ r.host_key ∧ item f.hostURI r.host_key = .ok (c.widen r.virtual_path.str) ∧
      item f.hostDir r.host_key = .ok (replaceSlashes (c.widen r.physical_path.str))
  /-- after the call that gave a record its key there is none for the record -/
  once : p.creates.Pairwise fun a b => Settles a.2 → a.1 ≠ b.1

/-- Keys other than -1 stay. -/
def KeysKept (p p' : Process) : Prop := ∀ i, hostKey p.table i ≠ -1 → hostKey p'.table i = hostKey p.table i

/-- Every record has a valid key, and the handler passes on no other. -/
def AllReady (p : Process) : Prop :=
  ∃ f l, p.factory = some f ∧ f.hostObj = some l ∧
    (∀ (i : Nat) (r : HostConf), p.table.records[i]? = some r → 0 ≤ r.host_key ∧ r.host_key < l.length) ∧
    ∀ s ∈ p.servers, ∀ order : List Alias, order.Perm (s.aliases.map Prod.snd) →
      ∀ (d : Dirconf) (env : Env) (rec : RequestRec) (k : Int),
        (aspNetHandler d p.table order env rec).dispatched = some k → 0 ≤ k ∧ k < l.length

/-! ## Keys and lists -/

section
variable {c : Interop} {g g' : HostTable} {f f' : Factory}

theorem hostKey_of_record {i : Nat} {r : HostConf} (h : g.records[i]? = some r) : hostKey g i = r.host_key := by
  rw [hostKey, h]

theorem record_of_hostKey {i : Nat} (h : hostKey g i ≠ -1) : ∃ r, g.records[i]? = some r ∧ r.host_key = hostKey g i := by
  unfold hostKey at h ⊢
  split
  · rename_i r hr; exact ⟨r, hr, rfl⟩
  · rename_i hr; rw [hr] at h; exact absurd rfl h

theorem hostKey_setKey {host : HostPtr} {r : HostConf} (h : g.records[host]? = some r) (k : Int) (i : HostPtr) :
    hostKey (setKey g host k) i = if host = i then k else hostKey g i := by
  simp only [hostKey, getElem?_setKey]
  by_cases he : host = i
  · subst he; simp [h]
  · simp only [if_neg he]
    cases g.records[i]? <;> rfl

/-- The keys are positions in the lists, where the record's paths are, and no
two records share one. -/
structure Matches (c : Interop) (g : HostTable) (f : Factory) : Prop where
  lists : ∃ us ds n, us.length = n ∧ ds.length = n ∧ Lists us ds n n f ∧
    ∀ (i : Nat) (r : HostConf), g.records[i]? = some r → r.host_key ≠ -1 → ∃ k : Nat, r.host_key = k ∧
      us[k]? = some (c.widen r.virtual_path.str) ∧ ds[k]? = some (replaceSlashes (c.widen r.physical_path.str))
  distinct : ∀ i j, hostKey g i ≠ -1 → hostKey g i = hostKey g j → i = j

theorem matches_newFactory (h : ∀ i, hostKey g i = -1) : Matches c g newFactory where
  lists := ⟨[], [], 0, rfl, rfl, ⟨rfl, rfl, ⟨[], rfl, rfl⟩, ⟨[], rfl, rfl⟩⟩, fun i _ hr hne =>
    absurd ((hostKey_of_record hr).symm.trans (h i)) hne⟩
  distinct i _ hne := absurd (h i) hne

theorem callCreateHost_runs {server : Nat} {r : HostConf} {choices : List Choice} {res : Except Exn Int}
    (h : callCreateHost c server r choices f = some (res, f')) :
    CreateHostRuns (c.widen r.virtual_path.str) (c.widen r.physical_path.str) server f res f' :=
  ⟨choices, h⟩

/-- The key a call leaves with its record: what it returned, or -1. -/
def keyAfter : Except Exn Int → Int
  | .ok k => k
  | .error _ => -1

/-- One call of `CreateHost` for a record. -/
theorem matches_create {server : Nat} {host : HostPtr} {r : HostConf} {choices : List Choice} {res : Except Exn Int}
    (hm : Matches c g f) (hr : g.records[host]? = some r)
    (h : callCreateHost c server r choices f = some (res, f')) :
    Matches c (setKey g host (keyAfter res)) f' := by
  obtain ⟨us, ds, n, hu, hd, hl, hpaths⟩ := hm.lists
  obtain ⟨hl', hres⟩ := createHost_lists (callCreateHost_runs h) hl
  have hafter : keyAfter res = n ∨ keyAfter res = -1 := by
    cases res with
    | ok k => exact hres k rfl
    | error e => exact .inr rfl
  -- the keys given before are positions in the lists as they were
  have hold : ∀ i, hostKey g i ≠ -1 → ∃ k : Nat, hostKey g i = k ∧ k < n := by
    intro i hne
    obtain ⟨r', hr', hk'⟩ := record_of_hostKey hne
    obtain ⟨k, hk, hget, -⟩ := hpaths i r' hr' (by rw [hk']; exact hne)
    exact ⟨k, hk' ▸ hk, hu ▸ (List.getElem?_eq_some_iff.mp hget).1⟩
  refine ⟨⟨_, _, n + 1, by simp [hu], by simp [hd], hl', fun i r' hr' hne => ?_⟩, fun i j hne heq => ?_⟩
  · rw [getElem?_setKey] at hr'
    obtain ⟨r₀, hr₀, rfl⟩ := Option.map_eq_some_iff.mp hr'
    by_cases hi : host = i
    · subst hi
      rw [hr] at hr₀; cases hr₀
      rw [if_pos rfl] at hne ⊢
      obtain hk := hafter.resolve_right hne
      exact ⟨n, hk, by simp [← hu], by simp [← hd]⟩
    · rw [if_neg hi] at hne ⊢
      obtain ⟨k, hk, hu', hd'⟩ := hpaths i r₀ hr₀ hne
      have hku := (List.getElem?_eq_some_iff.mp hu').1
      have hkd := (List.getElem?_eq_some_iff.mp hd').1
      exact ⟨k, hk, by rw [List.getElem?_append_left hku, hu'], by rw [List.getElem?_append_left hkd, hd']⟩
  · rw [hostKey_setKey hr] at hne heq
    rw [hostKey_setKey hr] at heq
    by_cases hi : host = i <;> by_cases hj : host = j
    · rw [← hi, hj]
    · rw [if_pos hi] at hne heq; rw [if_neg hj] at heq
      obtain ⟨k, hk, hlt⟩ := hold j (heq ▸ hne)
      have := hafter.resolve_right hne
      omega
    · rw [if_neg hi] at hne heq; rw [if_pos hj] at heq
      obtain ⟨k, hk, hlt⟩ := hold i hne
      have := hafter.resolve_right (heq ▸ hne)
      omega
    · rw [if_neg hi] at hne heq; rw [if_neg hj] at heq
      exact hm.distinct i j hne heq

/-- A key of -1 stored over -1. -/
theorem setKey_same {host : HostPtr} {r : HostConf} (hr : g.records[host]? = some r) (hkey : r.host_key = -1) :
    setKey g host (-1) = g := by
  have hrecords : (setKey g host (-1)).records = g.records := by
    apply List.ext_getElem?
    intro i
    rw [getElem?_setKey]
    by_cases hi : host = i
    · subst hi; rw [hr, Option.map_some, if_pos rfl, ← hkey]
    · simp [hi]
  calc setKey g host (-1) = ⟨g.hosts, (setKey g host (-1)).records⟩ := rfl
    _ = g := by rw [hrecords]

end

/-! ## The loop -/

/-- What the loop does, from a table and a factory that match. -/
structure LoopSpec (c : Interop) (g : HostTable) (items : List HostPtr) (r : Created) : Prop where
  matches_ : Matches c r.table r.factory
  kept : ∀ i, hostKey g i ≠ -1 → hostKey r.table i = hostKey g i
  /-- `CreateHost` is called for records without a key -/
  called : ∀ x ∈ r.creates, hostKey g x.1 = -1
  once : r.creates.Pairwise fun a b => Settles a.2 → a.1 ≠ b.1
  keyed : ∀ x ∈ r.creates, ∀ k, x.2 = .ok k → k ≠ -1 → hostKey r.table x.1 = k
  ready : r.status = OK → ∀ i ∈ items, hostKey r.table i ≠ -1

/-- The loop ends at a call that gives no key. -/
theorem loopSpec_failed {c : Interop} {g : HostTable} {f : Factory} {host : HostPtr} {items : List HostPtr}
    {res : Except Exn Int} {log : List Bytes} (hm : Matches c g f) (hkey : hostKey g host = -1)
    (hres : ∀ k, res = .ok k → k = -1) : LoopSpec c g (host :: items) ⟨1, log, g, f, [(host, res)]⟩ where
  matches_ := hm
  kept _ _ := rfl
  called x hx := by rw [List.mem_singleton] at hx; subst hx; exact hkey
  once := List.pairwise_singleton _ _
  keyed x hx k hk hne := by
    rw [List.mem_singleton] at hx; subst hx
    exact absurd (hres k hk) hne
  ready h := by cases h

/-- A record that has its key is passed over. -/
theorem LoopSpec.skipped {c : Interop} {g : HostTable} {host : HostPtr} {items : List HostPtr} {r : Created}
    (h : LoopSpec c g items r) (hne : hostKey g host ≠ -1) : LoopSpec c g (host :: items) r := by
  refine ⟨h.matches_, h.kept, h.called, h.once, h.keyed, fun hok i hi => ?_⟩
  rcases List.mem_cons.mp hi with rfl | hi
  · rw [h.kept i hne]; exact hne
  · exact h.ready hok i hi

/-- A record gets its key, and the loop goes on. -/
theorem LoopSpec.created {c : Interop} {g : HostTable} {host : HostPtr} {items : List HostPtr} {rec : HostConf}
    {rest : Created} {k : Int} (hrec : g.records[host]? = some rec) (hnone : hostKey g host = -1) (hk : k ≠ -1)
    (h : LoopSpec c (setKey g host k) items rest) :
    LoopSpec c g (host :: items)
      { rest with log := createdHost rec :: rest.log, creates := (host, .ok k) :: rest.creates } := by
  have hset := hostKey_setKey hrec k
  have hhost : hostKey rest.table host = k := by
    rw [h.kept host (by rw [hset, if_pos rfl]; exact hk), hset, if_pos rfl]
  have hfresh : ∀ x ∈ rest.creates, host ≠ x.1 ∧ hostKey g x.1 = -1 := by
    intro x hx
    have hx' := h.called x hx
    rw [hset] at hx'
    split at hx'
    · exact absurd hx' hk
    · rename_i hne; exact ⟨hne, hx'⟩
  refine ⟨h.matches_, fun i hi => ?_, fun x hx => ?_, ?_, fun x hx k' hk' hne => ?_, fun hok i hi => ?_⟩
  · have hne : host ≠ i := fun he => hi (he ▸ hnone)
    rw [h.kept i (by rw [hset, if_neg hne]; exact hi), hset, if_neg hne]
  · rcases List.mem_cons.mp hx with rfl | hx
    · exact hnone
    · exact (hfresh x hx).2
  · exact List.pairwise_cons.mpr ⟨fun x hx _ => (hfresh x hx).1, h.once⟩
  · rcases List.mem_cons.mp hx with rfl | hx
    · cases hk'; exact hhost
    · exact h.keyed x hx k' hk' hne
  · rcases List.mem_cons.mp hi with rfl | hi
    · rw [hhost]; exact hk
    · exact h.ready hok i hi

theorem createHosts_spec (c : Interop) (server : Nat) :
    ∀ {items : List HostPtr} {scripts : List (List Choice)} {g : HostTable} {f : Factory} {r : Created},
      Matches c g f → createHosts c server items scripts g f = some r → LoopSpec c g items r
  | [], _, g, f, r, hm, h => by
    cases h
    exact ⟨hm, fun _ _ => rfl, by simp, List.Pairwise.nil, by simp, by simp⟩
  | host :: items, scripts, g, f, r, hm, h => by
    unfold createHosts at h
    split at h
    · cases h
    rename_i rec hrec
    have hkeyrec := hostKey_of_record hrec
    split at h
    · rename_i hne
      exact (createHosts_spec c server hm h).skipped (hkeyrec ▸ hne)
    rename_i hnokey
    have hnone : hostKey g host = -1 := hkeyrec.trans (by simpa using hnokey)
    split at h
    · cases h
    split at h
    · cases h
    · -- an exception reaches the caller: the key stays -1
      rename_i e f' hcall
      cases h
      have hm' := matches_create hm hrec hcall
      rw [keyAfter, setKey_same hrec (hkeyrec ▸ hnone)] at hm'
      exact loopSpec_failed hm' hnone (by simp)
    · rename_i k f' hcall
      have hm' := matches_create hm hrec hcall
      rw [keyAfter] at hm'
      split at h
      · rename_i hk
        cases h
        rw [hk, setKey_same hrec (hkeyrec ▸ hnone)] at hm' ⊢
        exact loopSpec_failed hm' hnone (by simp)
      · rename_i hk
        obtain ⟨rest, hrest, rfl⟩ := Option.map_eq_some_iff.mp h
        exact (createHosts_spec c server hm' hrest).created hrec hnone hk

/-! ## The steps -/

/-- `AspNetMount` appends records without a key. -/
theorem mountCmd_hostKey (now : Nat) (g : HostTable) (s : SrvConf) (a : MountArgs) (i : HostPtr) :
    hostKey (mountCmd now g s a).1 i = hostKey g i := by
  unfold mountCmd
  split
  · rfl
  · dsimp only
    split
    · rfl
    · split
      · rfl
      · simp only [hostKey]
        rcases Nat.lt_trichotomy i g.records.length with hlt | rfl | hgt
        · rw [List.getElem?_append_left hlt]
        · simp [newHost]
        · rw [List.getElem?_eq_none (by simp; omega), List.getElem?_eq_none (by omega)]

/-- Records without a key can be added to a table that matches. -/
theorem Matches.append {c : Interop} {g g' : HostTable} {f : Factory} (h : Matches c g f)
    (hp : g.records <+: g'.records) (hk : ∀ i, hostKey g' i = hostKey g i) : Matches c g' f := by
  obtain ⟨us, ds, n, hu, hd, hl, hpaths⟩ := h.lists
  refine ⟨⟨us, ds, n, hu, hd, hl, fun i r hr hne => ?_⟩, fun i j hne heq => ?_⟩
  · have hne' : hostKey g i ≠ -1 := by rw [← hk, hostKey_of_record hr]; exact hne
    obtain ⟨r', hr', -⟩ := record_of_hostKey hne'
    have hsame : some r = some r' := hr.symm.trans (Intern.named_of_prefix hp hr')
    cases hsame
    exact hpaths i r hr' hne
  · rw [hk] at hne heq
    rw [hk] at heq
    exact h.distinct i j hne heq

/-- Before the first `CreateHost` no record has a key. -/
theorem Matches.no_keys {c : Interop} {g : HostTable} (h : Matches c g newFactory) (i : Nat) : hostKey g i = -1 := by
  by_contra hne
  obtain ⟨us, ds, n, -, -, hl, hpaths⟩ := h.lists
  obtain ⟨r, hr, hk⟩ := record_of_hostKey hne
  obtain ⟨k, -, hget, -⟩ := hpaths i r hr (by rw [hk]; exact hne)
  obtain rfl : us = [] := (Option.some.inj hl.uri).symm
  simp at hget

/-- The factory of a process, or the one it will start with. -/
def Process.lists (p : Process) : Factory := p.factory.getD newFactory

structure KeysInv (c : Interop) (p : Process) : Prop where
  records : RecordsInv p
  /-- an alias points to a record -/
  pointed : ∀ s ∈ p.servers, ∀ e ∈ s.aliases, e.2.host < p.table.records.length
  matched : Matches c p.table p.lists
  once : p.creates.Pairwise fun a b => Settles a.2 → a.1 ≠ b.1
  keyed : ∀ x ∈ p.creates, ∀ k, x.2 = .ok k → k ≠ -1 → hostKey p.table x.1 = k

theorem KeysInv.right {c : Interop} {p : Process} (hi : KeysInv c p) : KeysRight c p where
  distinct := hi.matched.distinct
  paths i r hr hne := by
    have hm := hi.matched
    cases hf : p.factory with
    | none =>
      rw [Process.lists, hf] at hm
      exact absurd ((hostKey_of_record hr).symm.trans (Matches.no_keys hm i)) hne
    | some f =>
      rw [Process.lists, hf] at hm
      obtain ⟨us, ds, n, -, -, hl, hpaths⟩ := hm.lists
      obtain ⟨k, hk, hu, hd⟩ := hpaths i r hr hne
      rw [hk]
      have hk0 : (0 : Int) ≤ k := Int.natCast_nonneg k
      exact ⟨f, rfl, hk0, item_eq_ok.mpr ⟨us, hl.uri, hk0, hu⟩, item_eq_ok.mpr ⟨ds, hl.dir, hk0, hd⟩⟩
  once := hi.once

theorem KeysKept.refl (p : Process) : KeysKept p p := fun _ _ => rfl

theorem KeysKept.trans {p p' p'' : Process} (h : KeysKept p p') (h' : KeysKept p' p'') : KeysKept p p'' := by
  intro i hne
  have hk := h i hne
  rw [h' i (hk ▸ hne), hk]

theorem keysInv_new (c : Interop) : KeysInv c newProcess where
  records := recordsInv_new
  pointed s hs := by cases hs
  matched := matches_newFactory fun _ => rfl
  once := List.Pairwise.nil
  keyed x hx := by cases hx

theorem keysInv_preConfig {c : Interop} {p : Process} (hi : KeysInv c p) (n : Nat) :
    KeysInv c (preConfig p n) ∧ KeysKept p (preConfig p n) := by
  refine ⟨⟨(recordsInv_preConfig hi.records n).1, fun s hs e he => ?_, hi.matched, hi.once, hi.keyed⟩, .refl p⟩
  obtain rfl := List.eq_of_mem_replicate hs
  cases he

/-- The alias of a successful mount points to a record. -/
theorem mountCmd_pointed {g : HostTable} (hwf : g.WF) (now : Nat) (s : SrvConf) (a : MountArgs)
    (hs : ∀ e ∈ s.aliases, e.2.host < g.records.length) :
    ∀ e ∈ (mountCmd now g s a).2.1.aliases, e.2.host < (mountCmd now g s a).1.records.length := by
  have hlen := (mountCmd_records now g s a).length_le
  by_cases hroot : ∃ root, a.Succeeds root
  · obtain ⟨root, hroot⟩ := hroot
    obtain ⟨m, hhost, -, htable⟩ := mountCmd_host hwf now s a hroot
    have hnamed := Intern.intern_named g.names (a.uri, root)
    rw [← mountCmd_names hwf now s a hroot, ← hhost, HostTable.names, List.getElem?_map] at hnamed
    obtain ⟨r, hr, -⟩ := Option.map_eq_some_iff.mp hnamed
    intro e he
    rw [htable] at he
    rcases Assoc.mem_set he with ⟨hv, -, -⟩ | he
    · rw [hv]; exact (List.getElem?_eq_some_iff.mp hr).1
    · exact Nat.lt_of_lt_of_le (hs e he) hlen
  · obtain ⟨hg, hsrv⟩ := mountCmd_failed now g s a fun root h => hroot ⟨root, h⟩
    rw [hg, hsrv]; exact hs

theorem keysInv_mount {c : Interop} {p p' : Process} (hi : KeysInv c p) {server : Nat} {a : MountArgs}
    (h : mount p server a = some p') : KeysInv c p' ∧ KeysKept p p' := by
  have hrecords := (recordsInv_mount hi.records h).1
  obtain ⟨g, s, hg, hs, rfl⟩ := mount_eq h
  have htable : p.table = g := by rw [Process.table, hg]; rfl
  have hkey := mountCmd_hostKey p.pass g s a
  have hprefix := mountCmd_records p.pass g s a
  have hpointed := hi.pointed
  have hmatched := hi.matched
  have hkeyed := hi.keyed
  rw [htable] at hpointed hmatched hkeyed
  refine ⟨⟨hrecords, fun s' hs' => ?_, hmatched.append hprefix hkey, hi.once, fun x hx k hk hne => ?_⟩, fun i _ => ?_⟩
  · rcases List.mem_or_eq_of_mem_set hs' with hs' | rfl
    · exact fun e he => Nat.lt_of_lt_of_le (hpointed s' hs' e he) hprefix.length_le
    · exact mountCmd_pointed (hi.records.wf g hg) p.pass s a (hpointed s (List.mem_of_getElem? hs))
  · exact (hkey x.1).trans (hkeyed x hx k hk hne)
  · rw [htable]; exact hkey i

/-! ## `asp_net_post_config` -/

theorem startEngine_lists {f : Option Factory} {e : EngineStart} :
    (∀ log f', startEngine f e = .error (log, f') → f'.getD newFactory = f.getD newFactory) ∧
      ∀ f', startEngine f e = .ok f' → f' = f.getD newFactory := by
  unfold startEngine
  cases f with
  | some f => simp
  | none => cases e <;> simp

/-- The enumeration meets every record. -/
theorem mem_order {g : HostTable} (hwf : g.WF) {order : List HostPtr} (h : order.isPerm (g.hosts.map Prod.snd) = true)
    {i : Nat} (hi : i < g.records.length) : i ∈ order := by
  rw [(List.isPerm_iff.mp h).mem_iff, hwf.entries, List.map_map]
  exact List.mem_map.mpr ⟨(g.records[i], i), List.mem_zipIdx_iff_getElem?.mpr (List.getElem?_eq_getElem hi), rfl⟩

theorem Matches.in_range {c : Interop} {g : HostTable} {f : Factory} (h : Matches c g f) :
    ∃ l, f.hostObj = some l ∧ ∀ i, hostKey g i ≠ -1 → 0 ≤ hostKey g i ∧ hostKey g i < l.length := by
  obtain ⟨us, ds, n, hu, -, hl, hpaths⟩ := h.lists
  obtain ⟨l, hobj, hlen⟩ := hl.obj
  refine ⟨l, hobj, fun i hne => ?_⟩
  obtain ⟨r, hr, hk⟩ := record_of_hostKey hne
  obtain ⟨k, hkey, hget, -⟩ := hpaths i r hr (hk ▸ hne)
  have hlt : k < us.length := (List.getElem?_eq_some_iff.mp hget).1
  omega

/-- A process whose records all have keys. -/
theorem KeysInv.ready {c : Interop} {p : Process} (hi : KeysInv c p) {f : Factory} (hf : p.factory = some f)
    (hall : ∀ i, i < p.table.records.length → hostKey p.table i ≠ -1) : AllReady p := by
  have hm := hi.matched
  rw [Process.lists, hf] at hm
  obtain ⟨l, hobj, hrange⟩ := Matches.in_range hm
  refine ⟨f, l, hf, hobj, fun i r hr => ?_, fun s hs order hperm d env rec k hd => ?_⟩
  · rw [← hostKey_of_record hr]
    exact hrange i (hall i (List.getElem?_eq_some_iff.mp hr).1)
  · obtain ⟨uri, host, hsel, rfl⟩ := aspNetHandler_dispatched hd
    -- the selected host is that of an alias of this server
    rw [selectHost_eq_find] at hsel
    obtain ⟨m, hfind, rfl⟩ := Option.map_eq_some_iff.mp hsel
    obtain ⟨e, he, rfl⟩ := List.mem_map.mp (hperm.mem_iff.mp (List.mem_of_find?_eq_some hfind))
    exact hrange _ (hall _ (hi.pointed s hs e he))

theorem keysInv_postConfig {c : Interop} {p p' : Process} (hi : KeysInv c p) {e : EngineStart}
    {order : List HostPtr} {scripts : List (List Choice)} {status : Int} {log : List Bytes}
    (h : postConfig c p e order scripts = some (status, log, p')) :
    KeysInv c p' ∧ KeysKept p p' ∧ (status = OK → AllReady p') := by
  have hrecords := (recordsInv_postConfig hi.records h).1
  unfold postConfig at h
  split at h
  · cases h
  rename_i g hg
  have htable : p.table = g := by rw [Process.table, hg]; rfl
  split at h
  · rename_i log f hstart
    cases h
    have hlists : f.getD newFactory = p.lists := startEngine_lists.1 log f hstart
    exact ⟨⟨hrecords, hi.pointed, by rw [Process.lists, hlists]; exact hi.matched, hi.once, hi.keyed⟩, .refl p, by simp [OK]⟩
  · rename_i f hstart
    obtain rfl : f = p.lists := startEngine_lists.2 f hstart
    split at h
    · rename_i hperm
      obtain ⟨r, hr, hp⟩ := Option.map_eq_some_iff.mp h
      cases hp
      have hpointed := hi.pointed
      have hmatched := hi.matched
      have hkeyed := hi.keyed
      rw [htable] at hpointed hmatched hkeyed
      have hspec := createHosts_spec c p.pass hmatched hr
      have hrekeyed := createHosts_rekeyed c p.pass hr
      have hinv : KeysInv c { p with
          global_conf := some r.table, factory := some r.factory, creates := p.creates ++ r.creates } := by
        refine ⟨hrecords, fun s hs e he => ?_, hspec.matches_, ?_, fun x hx k hk hne => ?_⟩
        · exact hrekeyed.length ▸ hpointed s hs e he
        · refine List.pairwise_append.mpr ⟨hi.once, hspec.once, fun x hx y hy ⟨k, hk, hne⟩ heq => ?_⟩
          -- a record that got its key before is not among the calls of this loop
          have hkey := hkeyed x hx k hk hne
          rw [heq, hspec.called y hy] at hkey
          exact hne hkey.symm
        · rcases List.mem_append.mp hx with hx | hx
          · have hkey := hkeyed x hx k hk hne
            exact (hspec.kept x.1 (hkey ▸ hne)).trans hkey
          · exact hspec.keyed x hx k hk hne
      refine ⟨hinv, fun i hne => ?_, fun hok => hinv.ready rfl fun i hlt => ?_⟩
      · rw [htable] at hne ⊢; exact hspec.kept i hne
      · exact hspec.ready hok i (mem_order (hi.records.wf g hg) hperm (hrekeyed.length ▸ hlt))
    · cases h

/-! ## Lives -/

theorem keysInv_step {c : Interop} {p p' : Process} {a : Step} (hi : KeysInv c p) (h : step c p a = some p') :
    KeysInv c p' ∧ KeysKept p p' := by
  cases a with
  | preConfig n => cases h; exact keysInv_preConfig hi n
  | mount server a => exact keysInv_mount hi h
  | fixupVirtualHosts =>
    cases h
    rw [fixupVirtualHosts_eq]
    exact ⟨hi, .refl p⟩
  | postConfig e order scripts =>
    obtain ⟨⟨status, log, p₁⟩, hr, rfl⟩ := Option.map_eq_some_iff.mp h
    exact (keysInv_postConfig hi hr).imp_right And.left

theorem keysInv_run {c : Interop} {as : List Step} {p p' : Process} (hi : KeysInv c p) (h : run c p as = some p') :
    KeysInv c p' ∧ KeysKept p p' :=
  run_inv (I := fun q => KeysInv c q ∧ KeysKept p q)
    (fun _ _ _ hq ha => (keysInv_step hq.1 ha).imp_right hq.2.trans) ⟨hi, .refl p⟩ h

/-- In every life of a process: keys are distinct, are the positions of the
records' paths in the factory, are given once and stay; and where
`asp_net_post_config` returns `OK`, every record has a valid key and the handler
passes on no other. -/
theorem host_keys_right (c : Interop) (L : Life c) :
    KeysRight c L.last ∧
      (∀ later p', run c L.last later = some p' → KeysRight c p' ∧ KeysKept L.last p') ∧
      ∀ e order scripts status log p', postConfig c L.last e order scripts = some (status, log, p') →
        status = OK → AllReady p' := by
  have hinv := (keysInv_run (keysInv_new c) L.ran).1
  refine ⟨hinv.right, fun later p' h => ?_, fun e order scripts status log p' h => (keysInv_postConfig hinv h).2.2⟩
  exact (keysInv_run hinv h).imp_left KeysInv.right

end ModAspNet.L6.Passes
