import ModAspNet.Core.Follow
import ModAspNet.L4Factory.Configured
import ModAspNet.L4Factory.Mounting

/-!
# Who writes which entry

One thread makes the mounts, one after the other and without the lock; requests
for connected keys, and finalizers, come from any threads. An entry of
`hostObj` is written by the mount that added it until `Configure` has completed
on a host of the key, and from then on only under the monitor, except that a
finalizer may put null there.

* `IsolationInv`, `Others`: what holds in every state, and what one thread may
  count on whatever the others do.
* `exec_still`, `store_keeps`, `configured_keeps`, `mount_keeps`: the operations.
* `connectHost_own`: `ConnectHost` by a thread that may connect its key leaves
  null in the entry if it returns false.
-/
namespace ModAspNet.L4.HostFactory

open ModAspNet.L1.Managed
open ModAspNet.Core

/-! ## Entries -/

/-- There is an entry for key `k`. -/
def Entry (s : Factory) (k : Int) : Prop := ∃ v, item s.hostObj k = .ok v

/-- `hostObj->Count` -/
def Factory.entries (s : Factory) : Int := (s.hostObj.getD []).length

/-- The four lists are there and have the same length. -/
def SameLengths (s : Factory) : Prop := ∃ us ds, Lists us ds us.length us.length s ∧ ds.length = us.length

/-- `Configure` completed on a host of key `k`. -/
def Event.serves (k : Int) : Event → Bool
  | .configured k' _ _ _ => decide (k' = k)
  | _ => false

/-- A host was put in the entry of `k`. -/
def Event.fills (k : Int) : Event → Bool
  | .stored _ k' (some _) => decide (k' = k)
  | _ => false

def connected (s : Factory) (k : Int) : Bool := s.events.any (Event.serves k)

def filled (s : Factory) (k : Int) : Bool := s.events.any (Event.fills k)

/-- The entry of `k` stays or becomes null. -/
def Kept (k : Int) (s s' : Factory) : Prop := item s'.hostObj k = item s.hostObj k ∨ item s'.hostObj k = .ok none

theorem Kept.trans {k : Int} {s s' s'' : Factory} (h : Kept k s s') (h' : Kept k s' s'') : Kept k s s'' := by
  rcases h' with h' | h'
  · rcases h with h | h
    · exact .inl (h'.trans h)
    · exact .inr (h'.trans h)
  · exact .inr h'

theorem Kept.null {k : Int} {s s' : Factory} (h : Kept k s s') (hn : item s.hostObj k = .ok none) :
    item s'.hostObj k = .ok none := by
  rcases h with h | h
  · rw [h, hn]
  · exact h

section
variable {us ds : List WString} {objs svrs : Nat} {s : Factory} {k : Int}

theorem Lists.entry_iff (hl : Lists us ds objs svrs s) : Entry s k ↔ 0 ≤ k ∧ k < objs := by
  obtain ⟨l, hobj, rfl⟩ := hl.obj
  constructor
  · rintro ⟨v, hv⟩
    obtain ⟨xs, hxs, hk, hx⟩ := item_eq_ok.mp hv
    cases hobj.symm.trans hxs
    have := (List.getElem?_eq_some_iff.mp hx).1
    omega
  · rintro ⟨hk, hlt⟩
    have hlt' : k.toNat < l.length := by omega
    exact ⟨_, item_eq_ok.mpr ⟨l, hobj, hk, List.getElem?_eq_getElem hlt'⟩⟩

theorem Lists.entries (hl : Lists us ds objs svrs s) : s.entries = objs := by
  obtain ⟨l, hobj, rfl⟩ := hl.obj
  rw [Factory.entries, hobj]
  rfl

/-- What an index below the length of a list finds. -/
theorem item_of_lt {α : Type} {l : List α} (hk : 0 ≤ k) (hlt : k < l.length) : ∃ a, item (some l) k = .ok a := by
  have hlt' : k.toNat < l.length := by omega
  exact ⟨_, item_eq_ok.mpr ⟨l, rfl, hk, List.getElem?_eq_getElem hlt'⟩⟩

end

/-! ## What is kept -/

/-- The lists are filled in the order server, virtual path, physical path,
object; an entry holds null or a host made for its key; and a connected entry
was filled, which only an entry that is there can be. -/
structure IsolationInv (s : Factory) : Prop where
  lists : ∃ us ds objs svrs, Lists us ds objs svrs s ∧
    objs ≤ ds.length ∧ ds.length ≤ us.length ∧ us.length ≤ svrs
  held : ∀ k h, item s.hostObj k = .ok (some h) → .created k h ∈ s.events ∧ filled s k = true
  served : ∀ k, connected s k = true → filled s k = true
  entry : ∀ k, filled s k = true → Entry s k

/-- What the other threads do, as thread `t` sees it, where `m` makes the
mounts: to entries that were filled, when `t` is in the monitor, and to those
not connected yet, when it is `t` that mounts them. -/
structure Others (m t : Nat) (s s' : Factory) : Prop extends Grows s s' where
  svr : ∀ k p, item s.hostSvr k = .ok p → item s'.hostSvr k = .ok p
  entry : ∀ k, Entry s k → Entry s' k
  owner : s.owner = some t → s'.owner = some t
  owned : s.owner = some t → ∀ k, filled s k = true → Kept k s s'
  lists : t = m → ∀ us ds objs svrs, Lists us ds objs svrs s → Lists us ds objs svrs s'
  mounting : t = m → ∀ k, connected s k = false →
    connected s' k = false ∧ (filled s k = false → filled s' k = false) ∧ Kept k s s'

/-- Thread `t` may connect key `k`. -/
def Mine (m t : Nat) (k : Int) (s : Factory) : Prop :=
  (s.owner = some t ∧ connected s k = true) ∨ (t = m ∧ connected s k = false)

/-- It may moreover put a host in the entry. -/
def MayFill (m t : Nat) (k : Int) (s : Factory) : Prop :=
  Mine m t k s ∧ (connected s k = false → filled s k = false)

theorem any_grows {s s' : Factory} (hg : Grows s s') {p : Event → Bool} (h : s.events.any p = true) :
    s'.events.any p = true := by
  obtain ⟨e, hm, he⟩ := List.any_eq_true.mp h
  exact List.any_eq_true.mpr ⟨e, hg.events e hm, he⟩

theorem Others.refl (m t : Nat) (s : Factory) : Others m t s s where
  toGrows := .refl s
  svr _ _ h := h
  entry _ h := h
  owner h := h
  owned _ _ _ := .inl rfl
  lists _ _ _ _ _ h := h
  mounting _ _ h := ⟨h, fun h => h, .inl rfl⟩

theorem Others.trans {m t : Nat} {s s' s'' : Factory} (h : Others m t s s') (h' : Others m t s' s'') :
    Others m t s s'' where
  toGrows := h.toGrows.trans h'.toGrows
  svr k p hp := h'.svr k p (h.svr k p hp)
  entry k he := h'.entry k (h.entry k he)
  owner ho := h'.owner (h.owner ho)
  owned ho k hf := (h.owned ho k hf).trans (h'.owned (h.owner ho) k (any_grows h.toGrows hf))
  lists ht us ds objs svrs hl := h'.lists ht us ds objs svrs (h.lists ht us ds objs svrs hl)
  mounting ht k hc := by
    obtain ⟨hc', hf, hk⟩ := h.mounting ht k hc
    obtain ⟨hc'', hf', hk'⟩ := h'.mounting ht k hc'
    exact ⟨hc'', fun hn => hf' (hf hn), hk.trans hk'⟩

theorem Others.mine {m t : Nat} {k : Int} {s s' : Factory} (h : Others m t s s') (hm : Mine m t k s) : Mine m t k s' := by
  rcases hm with ⟨ho, hc⟩ | ⟨ht, hc⟩
  · exact .inl ⟨h.owner ho, any_grows h.toGrows hc⟩
  · exact .inr ⟨ht, (h.mounting ht k hc).1⟩

theorem Others.mayFill {m t : Nat} {k : Int} {s s' : Factory} (h : Others m t s s') (hm : MayFill m t k s) :
    MayFill m t k s' := by
  refine ⟨h.mine hm.1, fun hc' => ?_⟩
  rcases hm.1 with ⟨-, hc⟩ | ⟨ht, hc⟩
  · rw [connected, any_grows h.toGrows hc] at hc'; cases hc'
  · exact (h.mounting ht k hc).2.1 (hm.2 hc)

/-- Who may connect a key finds null where it put null. -/
theorem Others.null {m t : Nat} {k : Int} {s s' : Factory} (h : Others m t s s') (hi : IsolationInv s)
    (hm : Mine m t k s) (hn : item s.hostObj k = .ok none) : item s'.hostObj k = .ok none := by
  rcases hm with ⟨ho, hc⟩ | ⟨ht, hc⟩
  · exact (h.owned ho k (hi.served k hc)).null hn
  · exact (h.mounting ht k hc).2.2.null hn

/-! ## What an operation does -/

/-- The lists stay, nothing recorded fills or connects an entry, and no other
thread leaves the monitor. -/
structure Still (t : Nat) (s s' : Factory) : Prop where
  uri : s'.hostURI = s.hostURI
  dir : s'.hostDir = s.hostDir
  obj : s'.hostObj = s.hostObj
  svr : s'.hostSvr = s.hostSvr
  grew : ∃ l, s'.events = s.events ++ l ∧ ∀ e ∈ l, ∀ k, e.serves k = false ∧ e.fills k = false
  owner : ∀ t', t' ≠ t → s.owner = some t' → s'.owner = some t'

section
variable {m t : Nat} {k : Int} {s s' : Factory}

theorem Still.connected (h : Still t s s') (k : Int) : connected s' k = connected s k := by
  obtain ⟨l, hl, hp⟩ := h.grew
  have hn : l.any (Event.serves k) = false := List.any_eq_false.mpr fun e he => by simp [(hp e he k).1]
  rw [HostFactory.connected, hl, List.any_append, hn, Bool.or_false]
  rfl

theorem Still.filled (h : Still t s s') (k : Int) : filled s' k = filled s k := by
  obtain ⟨l, hl, hp⟩ := h.grew
  have hn : l.any (Event.fills k) = false := List.any_eq_false.mpr fun e he => by simp [(hp e he k).2]
  rw [HostFactory.filled, hl, List.any_append, hn, Bool.or_false]
  rfl

theorem Still.grows (h : Still t s s') : Grows s s' where
  events e he := by
    obtain ⟨l, hl, -⟩ := h.grew
    rw [hl]
    exact List.mem_append_left _ he
  uri k u hu := by rw [h.uri, hu]
  dir k d hd := by rw [h.dir, hd]

theorem Still.lists (h : Still t s s') {us ds : List WString} {objs svrs : Nat} (hl : Lists us ds objs svrs s) :
    Lists us ds objs svrs s' :=
  ⟨h.uri ▸ hl.uri, h.dir ▸ hl.dir, h.obj ▸ hl.obj, h.svr ▸ hl.svr⟩

theorem Still.inv (h : Still t s s') (hi : IsolationInv s) : IsolationInv s' where
  lists := by
    obtain ⟨us, ds, objs, svrs, hl, hle⟩ := hi.lists
    exact ⟨us, ds, objs, svrs, h.lists hl, hle⟩
  held k host hk := by
    rw [h.obj] at hk
    obtain ⟨hc, hf⟩ := hi.held k host hk
    exact ⟨h.grows.events _ hc, by rw [h.filled, hf]⟩
  served k hc := by
    rw [h.connected] at hc
    rw [h.filled, hi.served k hc]
  entry k hf := by
    rw [h.filled] at hf
    rw [Entry, h.obj]
    exact hi.entry k hf

/-- Seen by a thread that stays in the monitor if it is there. -/
theorem Still.others (h : Still t s s') {t' : Nat} (ho : s.owner = some t' → s'.owner = some t') : Others m t' s s' where
  toGrows := h.grows
  svr k p hp := by rw [h.svr, hp]
  entry k he := by rw [Entry, h.obj]; exact he
  owner := ho
  owned _ k _ := .inl (by rw [h.obj])
  lists _ _ _ _ _ := h.lists
  mounting _ k hc := ⟨by rw [h.connected, hc], fun hf => by rw [h.filled, hf], .inl (by rw [h.obj])⟩

def Op.isStill : Op → Bool
  | .hostObjSet _ _ => false
  | .configure _ _ _ _ => false
  | o => o.keepsLists

theorem still_note {l : List Event} (hl : ∀ e ∈ l, ∀ k, e.serves k = false ∧ e.fills k = false)
    (huri : s'.hostURI = s.hostURI) (hdir : s'.hostDir = s.hostDir) (hobj : s'.hostObj = s.hostObj)
    (hsvr : s'.hostSvr = s.hostSvr) (hevents : s'.events = s.events ++ l)
    (howner : ∀ t', t' ≠ t → s.owner = some t' → s'.owner = some t') : Still t s s' :=
  ⟨huri, hdir, hobj, hsvr, ⟨l, hevents, hl⟩, howner⟩

theorem exec_still {o : Op} {x : Choice} {r : Except Exn o.Ans} (ho : o.isStill = true)
    (h : exec t o x s = some (r, s')) : Still t s s' := by
  have hkeep : ∀ t', t' ≠ t → s.owner = some t' → s.owner = some t' := fun _ _ h => h
  cases exec_did h with
  | created => exact still_note (by simp [Event.serves, Event.fills]) rfl rfl rfl rfl rfl hkeep
  | dispatched b raised =>
    refine still_note ?_ rfl rfl rfl rfl rfl hkeep
    cases b <;> cases raised <;> simp [dispatchEvents, started, Event.serves, Event.fills]
  | entered n hm =>
    refine still_note (l := []) (by simp) rfl rfl rfl rfl (by simp) fun t' ht ho' => ?_
    rcases hm with hm | hm <;> rw [hm] at ho' <;> cases ho'
    exact absurd rfl ht
  | @exited section_end w hm _ =>
    refine still_note ?_ rfl rfl rfl rfl rfl fun t' ht ho' => ?_
    · cases section_end <;> simp [sectionEnd, Event.serves, Event.fills]
    · rw [hm] at ho'; cases ho'; exact absurd rfl ht
  | stored | configured | configureRaised | addedSvr | addedURI | addedDir | addedObj | listDropped => cases ho
  | _ => exact still_note (l := []) (by simp) rfl rfl rfl rfl (by simp) hkeep

/-! ### Storing -/

theorem connected_store {c : Caller} {v : Option HostId} (k' : Int) :
    connected (s.store c k v) k' = connected s k' := by
  simp [connected, Factory.store, Event.serves]

theorem filled_store {c : Caller} {v : Option HostId} (k' : Int) :
    filled (s.store c k v) k' = (filled s k' || decide (k = k') && v.isSome) := by
  cases v <;> simp [filled, Factory.store, Event.fills]

theorem Mine.store {c : Caller} {v : Option HostId} {k' : Int} (h : Mine m t k' s) : Mine m t k' (s.store c k v) := by
  rw [Mine, connected_store]
  exact h

/-- While another thread mounts a key that is not connected, … -/
theorem Mine.ne {t' : Nat} {k' : Int} (h : Mine m t k s) (ht' : t' ≠ t) (ht : t' = m)
    (hc : connected s k' = false) : k' ≠ k := by
  rintro rfl
  rcases h with ⟨-, hc'⟩ | ⟨ht'', -⟩
  · rw [hc'] at hc; cases hc
  · exact ht' (ht.trans ht''.symm)

/-- … or is in the monitor, filled entries are not filled again. -/
theorem MayFill.ne {t' : Nat} {k' : Int} (h : MayFill m t k s) (ht' : t' ≠ t) (ho : s.owner = some t')
    (hf : filled s k' = true) : k' ≠ k := by
  rintro rfl
  obtain ⟨⟨hown, -⟩ | ⟨-, hc⟩, hfill⟩ := h
  · rw [ho] at hown; cases hown; exact ht' rfl
  · rw [hfill hc] at hf; cases hf

section
variable {c : Caller} {v v₀ : Option HostId}

theorem filled_store_mono {k' : Int} (hf : filled s k' = true) : filled (s.store c k v) k' = true := by
  rw [filled_store, hf, Bool.true_or]

theorem entry_store (hv₀ : item s.hostObj k = .ok v₀) {k' : Int} (h : Entry s k') : Entry (s.store c k v) k' := by
  obtain ⟨w, hw⟩ := h
  rw [Entry, item_store hv₀]
  split
  · exact ⟨v, rfl⟩
  · exact ⟨w, hw⟩

theorem lists_store {us ds : List WString} {objs svrs : Nat} (hl : Lists us ds objs svrs s) :
    Lists us ds objs svrs (s.store c k v) := by
  obtain ⟨l, hobj, hlen⟩ := hl.obj
  exact ⟨hl.uri, hl.dir, ⟨l.set k.toNat v, by rw [Factory.store, hobj]; rfl, by rw [List.length_set, hlen]⟩, hl.svr⟩

/-- The entry of another key stays, and that of `k` may become null. -/
theorem kept_store (hv₀ : item s.hostObj k = .ok v₀) {k' : Int} (h : v = none ∨ k' ≠ k) : Kept k' s (s.store c k v) := by
  rw [Kept, item_store hv₀]
  split
  · rename_i he
    rcases h with rfl | h
    · exact .inr rfl
    · exact absurd he h
  · exact .inl rfl

theorem inv_store (hi : IsolationInv s) (hv₀ : item s.hostObj k = .ok v₀) (hv : ∀ h, v = some h → .created k h ∈ s.events) :
    IsolationInv (s.store c k v) := by
  have hmem : ∀ e ∈ s.events, e ∈ (s.store c k v).events := fun e => List.mem_append_left _
  refine ⟨?_, fun k' h hk' => ?_, fun k' hc => ?_, fun k' hf => ?_⟩
  · obtain ⟨us, ds, objs, svrs, hl, hle⟩ := hi.lists
    exact ⟨us, ds, objs, svrs, lists_store hl, hle⟩
  · rw [item_store hv₀] at hk'
    split at hk'
    · rename_i he
      cases hk'
      subst he
      refine ⟨hmem _ (hv h rfl), ?_⟩
      rw [filled_store]
      simp
    · obtain ⟨hc, hf⟩ := hi.held k' h hk'
      exact ⟨hmem _ hc, filled_store_mono hf⟩
  · rw [connected_store] at hc
    exact filled_store_mono (hi.served k' hc)
  · rw [filled_store, Bool.or_eq_true, Bool.and_eq_true, decide_eq_true_eq] at hf
    rcases hf with hf | ⟨rfl, -⟩
    · exact entry_store hv₀ (hi.entry k' hf)
    · exact entry_store hv₀ ⟨v₀, hv₀⟩

theorem others_store (hv₀ : item s.hostObj k = .ok v₀) (hv : v.isSome → MayFill m t k s) {t' : Nat} (ht' : t' ≠ t) :
    Others m t' s (s.store c k v) := by
  have hne : ∀ k', (MayFill m t k s → k' ≠ k) → v = none ∨ k' ≠ k := by
    intro k' h
    cases v with
    | none => exact .inl rfl
    | some w => exact .inr (h (hv rfl))
  refine ⟨⟨fun e => List.mem_append_left _, fun _ _ h => h, fun _ _ h => h⟩, fun _ _ h => h, fun _ => entry_store hv₀,
    fun h => h, fun ho k' hf => kept_store hv₀ (hne k' fun h => h.ne ht' ho hf), fun _ us ds objs svrs => lists_store,
    fun ht k' hc => ?_⟩
  have hother := hne k' fun h => h.1.ne ht' ht hc
  refine ⟨by rw [connected_store, hc], fun hf => ?_, kept_store hv₀ hother⟩
  rw [filled_store, hf]
  rcases hother with rfl | hother
  · simp
  · simp [hother.symm]

/-- Null may be stored by any thread, a host by one that may fill the entry. -/
theorem store_keeps (hi : IsolationInv s) (hv₀ : item s.hostObj k = .ok v₀)
    (hv : ∀ h, v = some h → .created k h ∈ s.events ∧ MayFill m t k s) :
    IsolationInv (s.store c k v) ∧ ∀ t', t' ≠ t → Others m t' s (s.store c k v) := by
  refine ⟨inv_store hi hv₀ fun h hh => (hv h hh).1, fun t' ht' => others_store hv₀ (fun hsome => ?_) ht'⟩
  obtain ⟨h, hh⟩ := Option.isSome_iff_exists.mp hsome
  exact (hv h hh).2

end

/-! ### Connecting -/

theorem connected_configured {h : HostId} {uri dir : WString} (k' : Int) :
    connected (s.note [.configured k h uri dir]) k' = (connected s k' || decide (k = k')) := by
  simp [connected, Factory.note, Event.serves]

theorem filled_configured {h : HostId} {uri dir : WString} (k' : Int) :
    filled (s.note [.configured k h uri dir]) k' = filled s k' := by
  simp [filled, Factory.note, Event.fills]

theorem configured_keeps (h : HostId) (uri dir : WString) (hi : IsolationInv s) (hm : Mine m t k s)
    (hf : filled s k = true) : IsolationInv (s.note [.configured k h uri dir]) ∧
      ∀ t', t' ≠ t → Others m t' s (s.note [.configured k h uri dir]) := by
  have hmem : ∀ e ∈ s.events, e ∈ (s.note [.configured k h uri dir]).events := fun e => List.mem_append_left _
  have hlists : ∀ {us ds objs svrs}, Lists us ds objs svrs s → Lists us ds objs svrs (s.note [.configured k h uri dir]) :=
    fun hl => ⟨hl.uri, hl.dir, hl.obj, hl.svr⟩
  obtain ⟨us, ds, objs, svrs, hl, hle⟩ := hi.lists
  refine ⟨⟨⟨us, ds, objs, svrs, hlists hl, hle⟩, fun k' h' hk' => ?_, fun k' hc => ?_, fun k' hf' => ?_⟩, fun t' ht' =>
    ⟨⟨hmem, fun _ _ h => h, fun _ _ h => h⟩, fun _ _ h => h, fun _ h => h, fun h => h, fun _ _ _ => .inl rfl,
      fun _ _ _ _ _ => hlists, fun ht k' hc => ⟨?_, fun hn => ?_, .inl rfl⟩⟩⟩
  · obtain ⟨hc, hf'⟩ := hi.held k' h' hk'
    exact ⟨hmem _ hc, by rw [filled_configured, hf']⟩
  · rw [filled_configured]
    rw [connected_configured, Bool.or_eq_true, decide_eq_true_eq] at hc
    rcases hc with hc | rfl
    · exact hi.served k' hc
    · exact hf
  · rw [filled_configured] at hf'
    exact hi.entry k' hf'
  · rw [connected_configured, hc, Bool.false_or, decide_eq_false_iff_not]
    exact (hm.ne ht' ht hc).symm
  · rw [filled_configured, hn]

end

/-! ### Adding -/

section
variable {m t n : Nat} {us ds : List WString} {v p : WString} {svr : Nat} {x : Choice} {s s' : Factory}

theorem mountKnows_lists {q : MountPoint} (hus : us.length = n) (hds : ds.length = n)
    (h : mountKnows us ds n v p q s) : ∃ us ds objs svrs, Lists us ds objs svrs s ∧
      objs ≤ ds.length ∧ ds.length ≤ us.length ∧ us.length ≤ svrs := by
  cases q with
  | start => exact ⟨_, _, _, _, h, by simp [hus, hds]⟩
  | raised => exact ⟨_, _, _, _, h, by simp [hus, hds]⟩
  | _ => exact ⟨_, _, _, _, h.2, by simp [hus, hds]⟩

/-- Lists grow, that of the objects with null. -/
theorem grown_keeps (hi : IsolationInv s) (hevents : s'.events = s.events) (hmonitor : s'.monitor = s.monitor)
    (huri : ∀ k u, item s.hostURI k = .ok u → item s'.hostURI k = .ok u)
    (hdir : ∀ k d, item s.hostDir k = .ok d → item s'.hostDir k = .ok d)
    (hsvr : ∀ k p, item s.hostSvr k = .ok p → item s'.hostSvr k = .ok p)
    (hobj : ∀ k w, item s.hostObj k = .ok w → item s'.hostObj k = .ok w)
    (hnew : ∀ k h, item s'.hostObj k = .ok (some h) → item s.hostObj k = .ok (some h))
    (hlists : ∃ us ds objs svrs, Lists us ds objs svrs s' ∧
      objs ≤ ds.length ∧ ds.length ≤ us.length ∧ us.length ≤ svrs) :
    IsolationInv s' ∧ ∀ t', t' ≠ m → Others m t' s s' := by
  have hentry : ∀ k, Entry s k → Entry s' k := fun k ⟨w, hw⟩ => ⟨w, hobj k w hw⟩
  refine ⟨⟨hlists, fun k h hk => ?_, fun k hc => ?_, fun k hf => ?_⟩, fun t' ht' =>
    ⟨⟨fun e he => hevents ▸ he, huri, hdir⟩, hsvr, hentry, fun ho => ?_, fun _ k hf => ?_, fun ht => absurd ht ht',
      fun ht => absurd ht ht'⟩⟩
  · rw [filled, hevents]
    exact hi.held k h (hnew k h hk)
  · rw [connected, hevents] at hc
    rw [filled, hevents]
    exact hi.served k hc
  · rw [filled, hevents] at hf
    exact hentry k (hi.entry k hf)
  · rw [Factory.owner, hmonitor]
    exact ho
  · obtain ⟨w, hw⟩ := hi.entry k hf
    exact .inl (by rw [hobj k w hw, hw])

/-- What `CreateHost` does up to `ConnectHost`. -/
theorem mount_keeps {q : MountPoint} {o : Op} {next : Except Exn o.Ans → MountPoint} {r : Except Exn o.Ans}
    (hus : us.length = n) (hds : ds.length = n) (hi : IsolationInv s) (hk : mountKnows us ds n v p q s)
    (hedge : MountPoint.Edge v p svr q o next) (he : exec t o x s = some (r, s')) :
    (IsolationInv s' ∧ ∀ t', t' ≠ m → Others m t' s s') ∧ s'.events = s.events ∧ s'.monitor = s.monitor := by
  have hlists := mountKnows_lists hus hds (mount_step hk hedge he).2
  have hsame : ∀ {α : Type} (l : Option (List α)) (k : Int) (a : α), item l k = .ok a → item l k = .ok a :=
    fun _ _ _ h => h
  cases hedge <;> cases exec_did he
  case svr.addedSvr l hl =>
    exact ⟨grown_keeps hi rfl rfl (hsame _) (hsame _) (fun k p => item_add hl) (hsame _) (fun _ _ h => h) hlists, rfl, rfl⟩
  case uri.addedURI l hl =>
    exact ⟨grown_keeps hi rfl rfl (fun k u => item_add hl) (hsame _) (hsame _) (hsame _) (fun _ _ h => h) hlists, rfl, rfl⟩
  case dir.addedDir l hl =>
    exact ⟨grown_keeps hi rfl rfl (hsame _) (fun k d => item_add hl) (hsame _) (hsame _) (fun _ _ h => h) hlists, rfl, rfl⟩
  case obj.addedObj l hl =>
    refine ⟨grown_keeps hi rfl rfl (hsame _) (hsame _) (hsame _) (fun k w => item_add hl) (fun k h hk => ?_) hlists, rfl, rfl⟩
    rcases item_of_add hl hk with hk | hk
    · exact hk
    · cases hk
  all_goals
    exact ⟨grown_keeps hi rfl rfl (hsame _) (hsame _) (hsame _) (hsame _) (fun _ _ h => h) hlists, rfl, rfl⟩

end

/-! ## The specification -/

/-- Requests are for connected keys, there is no `Destroy`, and thread `m`
alone adds to the lists. -/
def isolating (m : Nat) : Assumption Op Call Choice Factory where
  call c s :=
    match c with
    | .handleHostRequest k _ => connected s k = true
    | .destroy => False
    | _ => True
  step t o _ _ := o.keepsLists = false → t = m

/-- A host is made for the paths of its key, by who may put it in the entry. -/
def MakesRight (m t : Nat) (s : Factory) : Op → Prop
  | .createApplicationHost k uri dir =>
    item s.hostURI k = .ok uri ∧ item s.hostDir k = .ok dir ∧ Entry s k ∧ MayFill m t k s
  | _ => True

def isolation (m : Nat) : Spec exec (isolating m) where
  inv := IsolationInv
  rely := Others m
  good t o s _ := MakesRight m t s o
  refl := Others.refl m
  trans _ _ _ _ := Others.trans

section
variable {m t : Nat} {k : Int} {s s' : Factory} {G : Nat → Op → Factory → Factory → Prop}

theorem still_ok {o : Op} {x : Choice} {r : Except Exn o.Ans} (hi : IsolationInv s) (ho : o.isStill = true)
    (hgood : MakesRight m t s o) (he : exec t o x s = some (r, s')) : (isolation m).StepOK t o s s' :=
  have hstill := exec_still ho he
  ⟨hstill.inv hi, fun t' ht' => hstill.others (hstill.owner t' ht'), hgood⟩

theorem still_log (l : List (WString × Int × ServerPtr)) : Still t s { s with error_log := l } :=
  ⟨rfl, rfl, rfl, rfl, ⟨[], by simp, by simp⟩, fun _ _ h => h⟩

theorem others_log (l : List (WString × Int × ServerPtr)) : Others m t s { s with error_log := l } :=
  (still_log (t := t) l).others fun h => h

theorem logBlind_isolation : LogBlind (isolation m) where
  inv _ l hi := (still_log (t := 0) l).inv hi
  rely _ _ l := others_log l
  good _ o _ _ ho := by cases o <;> trivial

/-! ## `ConnectHost` -/

def connectsOwn (m t : Nat) (k : Int) : ConnectPoint → Factory → Prop
  | .start, s => Entry s k ∧ MayFill m t k s
  | .made v, s => Entry s k ∧ MayFill m t k s ∧ ∀ h, v = some h → .created k h ∈ s.events
  | .stored _, s => Entry s k ∧ Mine m t k s ∧ filled s k = true
  | .located _ _, s => Entry s k ∧ Mine m t k s ∧ filled s k = true
  | .placed _ _ _, s => Entry s k ∧ Mine m t k s ∧ filled s k = true
  | .unmade, s => Entry s k ∧ Mine m t k s ∧ item s.hostObj k = .ok none
  | .raised, s => Entry s k ∧ Mine m t k s
  | .connected, s => connected s k = true
  | .unconnected, s => Mine m t k s ∧ item s.hostObj k = .ok none
  | .escaped, _ => True

theorem connectsOwn_others {p : ConnectPoint} (hi : IsolationInv s) (h : connectsOwn m t k p s)
    (ho : Others m t s s') : connectsOwn m t k p s' := by
  cases p with
  | start => exact ⟨ho.entry k h.1, ho.mayFill h.2⟩
  | made v => exact ⟨ho.entry k h.1, ho.mayFill h.2.1, fun host hv => ho.events _ (h.2.2 host hv)⟩
  | stored host => exact ⟨ho.entry k h.1, ho.mine h.2.1, any_grows ho.toGrows h.2.2⟩
  | located host uri => exact ⟨ho.entry k h.1, ho.mine h.2.1, any_grows ho.toGrows h.2.2⟩
  | placed host uri dir => exact ⟨ho.entry k h.1, ho.mine h.2.1, any_grows ho.toGrows h.2.2⟩
  | unmade => exact ⟨ho.entry k h.1, ho.mine h.2.1, ho.null hi h.2.1 h.2.2⟩
  | raised => exact ⟨ho.entry k h.1, ho.mine h.2⟩
  | connected => exact any_grows ho.toGrows h
  | unconnected => exact ⟨ho.mine h.1, ho.null hi h.1 h.2⟩
  | escaped => trivial

/-- What `ConnectHost` does for key `k` is good by `G` as well. -/
structure Lets (k : Int) (G : Nat → Op → Factory → Factory → Prop) : Prop where
  connect : ∀ t o s s', IsolationInv s → Entry s k → o.ofConnect k = true → G t o s s'
  report : ∀ t o s s', o.isReport = true → G t o s s'

section
variable (hG : Lets k G)
include hG

/-- Reading a path or logging. -/
theorem text_own {p : ConnectPoint} {o : Op} (ho : o.isText = true) (hk : o.ofConnect k = true)
    (hentry : ∀ s, connectsOwn m t k p s → Entry s k) {x : Choice} {r : Except Exn o.Ans} (hi : IsolationInv s)
    (hp : connectsOwn m t k p s) (he : exec t o x s = some (r, s')) :
    ((isolation m).also G).StepOK t o s s' ∧ connectsOwn m t k p s' := by
  obtain ⟨l, rfl⟩ := exec_text ho he
  have hok : (isolation m).StepOK t o s { s with error_log := l } :=
    ⟨logBlind_isolation.inv s l hi, fun t' _ => others_log l, logBlind_isolation.good t o s l ho⟩
  exact ⟨hok.also (hG.connect t o s _ hi (hentry s hp) hk), connectsOwn_others hi hp (others_log l)⟩

/-- Storing to the own entry. -/
theorem store_own {v : Option HostId} (hi : IsolationInv s) (hentry : Entry s k)
    (hv : ∀ h, v = some h → .created k h ∈ s.events ∧ MayFill m t k s) {x : Choice} {r : Except Exn Unit}
    (he : exec t (.hostObjSet k v) x s = some (r, s')) :
    ((isolation m).also G).StepOK t (.hostObjSet k v) s s' ∧ r = .ok () ∧ s' = s.store (s.caller t) k v ∧
      item s'.hostObj k = .ok v := by
  obtain ⟨w, hw⟩ := hentry
  rcases exec_hostObjSet he with ⟨e, -, -, herr⟩ | ⟨v₀, rfl, hv₀, rfl⟩
  · rw [hw] at herr; cases herr
  · obtain ⟨hi', hothers⟩ := store_keeps (c := s.caller t) hi hv₀ hv
    refine ⟨Spec.StepOK.also ⟨hi', hothers, trivial⟩ (hG.connect t _ s _ hi ⟨w, hw⟩ (by simp [Op.ofConnect])), rfl, rfl, ?_⟩
    rw [item_store hv₀, if_pos rfl]

def ownOutline : ((isolation m).also G).Outline t (madeFlow k) where
  knows := connectsOwn m t k
  stable p _ _ hi _ hp hr := connectsOwn_others hi hp hr
  step {p o next} hedge s x r s' hi hp _ he := by
    obtain ⟨hedge, hne⟩ := hedge
    cases hedge with
    | create uri dir => exact absurd rfl hne
    | store v =>
      obtain ⟨hentry, hfill, hmade⟩ := hp
      obtain ⟨hok, rfl, rfl, hitem⟩ := store_own hG hi hentry (fun h hv => ⟨hmade h hv, hfill⟩) he
      refine ⟨hok, ?_⟩
      cases v with
      | none => exact ⟨⟨_, hitem⟩, hfill.1.store, hitem⟩
      | some h => exact ⟨⟨_, hitem⟩, hfill.1.store, by rw [filled_store]; simp⟩
    | uri h =>
      obtain ⟨hok, hp'⟩ := text_own hG (p := .stored h) rfl (by simp [Op.ofConnect]) (fun _ hp => hp.1) hi hp he
      refine ⟨hok, ?_⟩
      cases r with
      | ok uri => exact hp'
      | error e => exact ⟨hp'.1, hp'.2.1⟩
    | dir h uri =>
      obtain ⟨hok, hp'⟩ := text_own hG (p := .located h uri) rfl (by simp [Op.ofConnect]) (fun _ hp => hp.1) hi hp he
      refine ⟨hok, ?_⟩
      cases r with
      | ok dir => exact hp'
      | error e => exact ⟨hp'.1, hp'.2.1⟩
    | configure h uri dir =>
      have hg : G t (.configure k h uri dir) s s' := hG.connect t _ s s' hi hp.1 (by simp [Op.ofConnect])
      rcases exec_configure he with ⟨rfl, rfl⟩ | ⟨b, e, -, rfl, rfl⟩
      · obtain ⟨hi', hothers⟩ := configured_keeps h uri dir hi hp.2.1 hp.2.2
        refine ⟨Spec.StepOK.also ⟨hi', hothers, trivial⟩ hg, ?_⟩
        change connected _ k = true
        rw [connected_configured]
        simp
      · have hstill : Still t s (s.note [.configureRaised k h e]) :=
          still_note (by simp [Event.serves, Event.fills]) rfl rfl rfl rfl rfl fun _ _ h => h
        have ho : Others m t s _ := hstill.others fun h => h
        exact ⟨Spec.StepOK.also ⟨hstill.inv hi, fun t' _ => hstill.others fun h => h, trivial⟩ hg,
          ho.entry k hp.1, ho.mine hp.2.1⟩
    | clear =>
      obtain ⟨hok, rfl, rfl, hitem⟩ := store_own hG hi hp.1 (fun h hv => by cases hv) he
      exact ⟨hok, hp.2.store, hitem⟩
  silent h s _ hp := by
    cases h with
    | start_raised => exact ⟨hp.1, hp.2.1⟩
    | unmade_raised => exact ⟨hp.1, hp.2.1⟩
    | unmade_unconnected => exact ⟨hp.2.1, hp.2.2⟩
    | raised_escaped => trivial

theorem report_own (p : ConnectPoint) (o : Op) (ho : o.isReport = true) :
    ((isolation m).also G).Triple t (connectsOwn m t k p) (atom o) fun _ => connectsOwn m t k p := by
  have hs : ((isolation m).also G).Stable t (connectsOwn m t k p) := fun _ _ hi _ hp hr => connectsOwn_others hi hp hr
  refine .perform hs (fun _ => hs) fun s x r s' hi hp _ he => ?_
  have htext : o.isText = true := by cases o <;> simp_all [Op.isReport, Op.isText]
  obtain ⟨l, rfl⟩ := exec_text htext he
  exact ⟨Spec.StepOK.also ⟨logBlind_isolation.inv s l hi, fun t' _ => others_log l,
    logBlind_isolation.good t o s l htext⟩ (hG.report t o s _ ho), connectsOwn_others hi hp (others_log l)⟩

/-- `ConnectHost` by a thread that may connect the key. -/
theorem connectHost_own : ((isolation m).also G).Triple t (connectsOwn m t k .start) (connectHost k)
    fun r => connectsOwn m t k (.after r) := by
  have hs : ∀ p, ((isolation m).also G).Stable t (connectsOwn m t k p) :=
    fun _ _ _ hi _ hp hr => connectsOwn_others hi hp hr
  have hraised : ∀ s, connectsOwn m t k .start s → connectsOwn m t k .raised s := fun s hp => ⟨hp.1, hp.2.1⟩
  have huri : ∀ u, ((isolation m).also G).Stable t fun s => item s.hostURI k = .ok u := fun _ _ _ _ _ hu hr => hr.uri k _ hu
  have hdir : ∀ d, ((isolation m).also G).Stable t fun s => item s.hostDir k = .ok d := fun _ _ _ _ _ hd hr => hr.dir k _ hd
  rw [connectHost_eq]
  refine .tryCatch (H := fun _ => connectsOwn m t k .raised) (fun a => hs _) ?_ fun e =>
    connectRaised_outline (ownOutline hG) (report_own hG) e
  -- what is read of the paths is what the lists hold, and goes on to be
  refine .bind (R := fun uri s => connectsOwn m t k .start s ∧ item s.hostURI k = .ok uri) ?_ fun uri => ?_
  · refine .perform (hs .start) (fun r => ?_) fun s x r s' hi hp _ he => ?_
    · cases r with
      | ok uri => exact (hs .start).and (huri uri)
      | error e => exact hs .raised
    · obtain ⟨hok, hp'⟩ := text_own hG (p := .start) rfl (by simp [Op.ofConnect]) (fun _ hp => hp.1) hi hp he
      refine ⟨hok, ?_⟩
      cases x <;> simp only [exec, Option.some.injEq, Prod.mk.injEq, reduceCtorEq] at he
      obtain ⟨rfl, rfl⟩ := he
      cases item s.hostURI k with
      | ok uri => exact ⟨hp', rfl⟩
      | error e => exact hraised s hp'
  refine .bind (R := fun dir s => (connectsOwn m t k .start s ∧ item s.hostURI k = .ok uri) ∧
    item s.hostDir k = .ok dir) ?_ fun dir => ?_
  · refine .perform ((hs .start).and (huri uri)) (fun r => ?_) fun s x r s' hi hp _ he => ?_
    · cases r with
      | ok dir => exact ((hs .start).and (huri uri)).and (hdir dir)
      | error e => exact hs .raised
    · obtain ⟨hok, hp'⟩ := text_own hG (p := .start) rfl (by simp [Op.ofConnect]) (fun _ hp => hp.1) hi hp.1 he
      refine ⟨hok, ?_⟩
      cases x <;> simp only [exec, Option.some.injEq, Prod.mk.injEq, reduceCtorEq] at he
      obtain ⟨rfl, rfl⟩ := he
      cases item s.hostDir k with
      | ok dir => exact ⟨⟨hp', hp.2⟩, rfl⟩
      | error e => exact hraised s hp'
  refine .bind (R := fun v => connectsOwn m t k (.made v)) ?_ fun v =>
    (connectMade_outline (ownOutline hG) (report_own hG) v).weaken fun r s _ hp => by cases r <;> exact hp
  refine .perform (((hs .start).and (huri uri)).and (hdir dir)) (fun r => ?_) fun s x r s' hi hp _ he => ?_
  · cases r with
    | ok v => exact hs (.made v)
    | error e => exact hs .raised
  · have hok := still_ok (m := m) (o := .createApplicationHost k uri dir) hi rfl ⟨hp.1.2, hp.2, hp.1.1⟩ he
    refine ⟨hok.also (hG.connect t _ s s' hi hp.1.1.1 (by simp [Op.ofConnect])), ?_⟩
    rcases exec_createApplicationHost he with ⟨rfl, rfl⟩ | ⟨rfl, rfl | ⟨e, rfl⟩⟩
    · have hstill : Still t s (s.newHost k uri dir) := exec_still rfl he
      have ho : Others m t s (s.newHost k uri dir) := hstill.others fun h => h
      refine ⟨ho.entry k hp.1.1.1, ho.mayFill hp.1.1.2, ?_⟩
      rintro h ⟨⟩
      exact List.mem_append_right _ (List.mem_singleton.mpr rfl)
    · exact ⟨hp.1.1.1, hp.1.1.2, by rintro h ⟨⟩⟩
    · exact hraised _ hp.1.1

end

end

end ModAspNet.L4.HostFactory
