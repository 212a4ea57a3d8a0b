import ModAspNet.L4Factory.Configured
import ModAspNet.L4Factory.Mounting

/-!
# The hosts of a key

Which hosts were made for a key, which of them were lost, and what
`ConnectHost` does when all are gone: it makes one, puts it in the place of the
key, and, if `Configure` raises, takes it out again.

* `connect_step`: one operation of `ConnectHost`, on a key with which no other
  thread concerns itself.
* `exec_leaves`: every operation that neither stores to a key nor makes a host
  for it leaves the key.
* `Mounted.keys`: after calls of `CreateHost`, each key is settled: every host
  made for it is gone or in its place.
-/
namespace ModAspNet.L4.HostFactory

open ModAspNet.L1.Managed
open ModAspNet.Core

variable {k : Int}

/-! ## Hosts made and hosts lost -/

def Event.makes (k : Int) : Event → Option HostId
  | .created k' h => if k' = k then some h else none
  | _ => none

/-- The hosts `CreateApplicationHost` made for `k`, in order. -/
def hostsOf (s : Factory) (k : Int) : List HostId := s.events.filterMap (Event.makes k)

def Event.loses (h : HostId) : Event → Bool
  | .configureRaised _ h' e => decide (h' = h) && e.hostLost
  | .dispatchRaised _ _ _ h' e => decide (h' = h) && e.hostLost
  | .finalized _ h' => decide (h' = h)
  | _ => false

/-- Some call on `h` raised one of the two exceptions, or `h` was finalized. -/
def Lost (s : Factory) (h : HostId) : Prop := ∃ e ∈ s.events, e.loses h = true

instance (s : Factory) (h : HostId) : Decidable (Lost s h) :=
  inferInstanceAs (Decidable (∃ e ∈ s.events, e.loses h = true))

/-- `hostObj[k]` changes from a configured host only when that was lost. -/
def SlotKept (k : Int) (s s' : Factory) : Prop :=
  ∀ h ∈ s.slot k, s'.slot k ≠ some h → IsConfigured s h → Lost s h

instance (k : Int) (s s' : Factory) : Decidable (SlotKept k s s') :=
  inferInstanceAs (Decidable (∀ h ∈ s.slot k, s'.slot k ≠ some h → IsConfigured s h → Lost s h))

/-! ## What the events say -/

/-- The host an event of `ConnectHost` is about. -/
def Event.connects : Event → Option HostId
  | .created _ h => some h
  | .configured _ h _ _ => some h
  | .configureRaised _ h _ => some h
  | _ => none

def Event.drops (h : HostId) : Event → Bool
  | .configureRaised _ h' _ => decide (h' = h)
  | _ => false

/-- `h` was lost, or could not be configured. -/
def Gone (s : Factory) (h : HostId) : Prop := ∃ e ∈ s.events, e.loses h = true ∨ e.drops h = true

instance (s : Factory) (h : HostId) : Decidable (Gone s h) :=
  inferInstanceAs (Decidable (∃ e ∈ s.events, e.loses h = true ∨ e.drops h = true))

/-- Nobody has called `Configure` on `h`. -/
def Untried (s : Factory) (h : HostId) : Prop :=
  ∀ e ∈ s.events, e.isConfigureOf h = false ∧ e.drops h = false

/-- The objects are numbered as they are made, and `Configure` does not both
complete and raise on one. -/
structure Ledger (s : Factory) : Prop where
  fresh : ∀ e ∈ s.events, ∀ h, e.connects = some h → h < s.hosts
  once : ∀ h, IsConfigured s h → ∀ e ∈ s.events, e.drops h = false

theorem Lost.gone {s : Factory} {h : HostId} : Lost s h → Gone s h := fun ⟨e, hm, he⟩ => ⟨e, hm, .inl he⟩

theorem Ledger.lost {s : Factory} (hl : Ledger s) {h : HostId} (hg : Gone s h) (hc : IsConfigured s h) : Lost s h := by
  obtain ⟨e, hm, he | he⟩ := hg
  · exact ⟨e, hm, he⟩
  · rw [hl.once h hc e hm] at he; cases he

theorem Gone.mono {s s' : Factory} (hg : ∀ e ∈ s.events, e ∈ s'.events) {h : HostId} : Gone s h → Gone s' h :=
  fun ⟨e, hm, he⟩ => ⟨e, hg e hm, he⟩

theorem Lost.mono {s s' : Factory} (hg : ∀ e ∈ s.events, e ∈ s'.events) {h : HostId} : Lost s h → Lost s' h :=
  fun ⟨e, hm, he⟩ => ⟨e, hg e hm, he⟩

theorem isConfigureOf_connects {e : Event} {h : HostId} (he : e.isConfigureOf h = true) : e.connects = some h := by
  cases e <;> simp_all [Event.isConfigureOf, Event.connects]

theorem drops_connects {e : Event} {h : HostId} (he : e.drops h = true) : e.connects = some h := by
  cases e <;> simp_all [Event.drops, Event.connects]

/-- A number that was not given yet. -/
theorem Ledger.untried {s : Factory} (hl : Ledger s) : Untried s s.hosts := by
  intro e hm
  constructor <;> by_contra hne <;> rw [Bool.not_eq_false] at hne
  · exact Nat.lt_irrefl _ (hl.fresh e hm _ (isConfigureOf_connects hne))
  · exact Nat.lt_irrefl _ (hl.fresh e hm _ (drops_connects hne))

/-- Recording what is not about connecting. -/
theorem Ledger.plain {s s' : Factory} {l : List Event} (hl : Ledger s) (hevents : s'.events = s.events ++ l)
    (hplain : ∀ e ∈ l, e.connects = none) (hhosts : s'.hosts = s.hosts) : Ledger s' := by
  have hold : ∀ e ∈ s'.events, ∀ h, e.connects = some h → e ∈ s.events := by
    intro e hm h he
    rw [hevents, List.mem_append] at hm
    rcases hm with hm | hm
    · exact hm
    · rw [hplain e hm] at he; cases he
  constructor
  · intro e hm h he
    rw [hhosts]; exact hl.fresh e (hold e hm h he) h he
  · rintro h ⟨e', hm', he'⟩ e hm
    by_contra hne
    rw [Bool.not_eq_false] at hne
    have hmem := hold e hm h (drops_connects hne)
    rw [hl.once h ⟨e', hold e' hm' h (isConfigureOf_connects he'), he'⟩ e hmem] at hne
    cases hne

theorem Ledger.created {s : Factory} (hl : Ledger s) (k : Int) (uri dir : WString) : Ledger (s.newHost k uri dir) := by
  constructor
  · intro e hm h he
    rcases List.mem_append.mp hm with hm | hm
    · exact Nat.lt_succ_of_lt (hl.fresh e hm h he)
    · cases List.mem_singleton.mp hm; cases he; exact Nat.lt_succ_self _
  · rintro h ⟨e', hm', he'⟩ e hm
    rcases List.mem_append.mp hm' with hm' | hm'
    · rcases List.mem_append.mp hm with hm | hm
      · exact hl.once h ⟨e', hm', he'⟩ e hm
      · cases List.mem_singleton.mp hm; rfl
    · cases List.mem_singleton.mp hm'; cases he'

/-- The first call of `Configure` on `h`, whether it completes or raises. -/
theorem Ledger.tried {s : Factory} (hl : Ledger s) {h : HostId} (hu : Untried s h) (hh : h < s.hosts) {e : Event}
    (he : e.connects = some h) : Ledger (s.note [e]) := by
  have hcase : ∀ e', e' ∈ s.events ++ [e] → e' ∈ s.events ∨ e' = e := fun e' hm => by simpa using hm
  constructor
  · intro e' hm h' he'
    rcases hcase e' hm with hm | rfl
    · exact hl.fresh e' hm h' he'
    · rw [he] at he'; cases he'; exact hh
  · rintro h' ⟨e₁, hm₁, he₁⟩ e₂ hm₂
    by_contra hne
    rw [Bool.not_eq_false] at hne
    rcases hcase e₁ hm₁ with h1 | rfl <;> rcases hcase e₂ hm₂ with h2 | rfl
    · rw [hl.once h' ⟨e₁, h1, he₁⟩ e₂ h2] at hne; cases hne
    · have hh' := drops_connects hne
      rw [he] at hh'; cases hh'
      rw [(hu e₁ h1).1] at he₁; cases he₁
    · have hh' := isConfigureOf_connects he₁
      rw [he] at hh'; cases hh'
      rw [(hu e₂ h2).2] at hne; cases hne
    · cases e₂ <;> simp_all [Event.drops, Event.isConfigureOf]

/-- `Configure` is called on hosts it was not called on. -/
theorem exec_ledger {t : Nat} {o : Op} {x : Choice} {s s' : Factory} {r : Except Exn o.Ans} (hl : Ledger s)
    (ha : ∀ k h uri dir, o = .configure k h uri dir → Untried s h ∧ h < s.hosts)
    (h : exec t o x s = some (r, s')) : Ledger s' := by
  cases exec_did h with
  | created => exact hl.created _ _ _
  | configured => obtain ⟨hu, hh⟩ := ha _ _ _ _ rfl; exact hl.tried hu hh rfl
  | configureRaised e => obtain ⟨hu, hh⟩ := ha _ _ _ _ rfl; exact hl.tried hu hh rfl
  | stored h => exact hl.plain rfl (by simp [Event.connects]) rfl
  | dispatched b raised =>
    exact hl.plain rfl (by cases b <;> cases raised <;> simp [dispatchEvents, started, Event.connects]) rfl
  | @exited section_end m _ _ => exact hl.plain rfl (by cases section_end <;> simp [sectionEnd, Event.connects]) rfl
  | _ => exact hl.plain (l := []) (by simp) (by simp) rfl

/-! ## A key and its hosts -/

theorem hostsOf_append (s : Factory) (l : List Event) (k : Int) :
    hostsOf (s.note l) k = hostsOf s k ++ l.filterMap (Event.makes k) := by
  simp [hostsOf, Factory.note]

theorem fresh_hostsOf {s : Factory} (hl : Ledger s) {h : HostId} (hm : h ∈ hostsOf s k) : h < s.hosts := by
  obtain ⟨e, he, hmake⟩ := List.mem_filterMap.mp hm
  refine hl.fresh e he h ?_
  cases e <;> simp_all [Event.makes, Event.connects]

/-- The entries of `k` are there, it holds a host made for it, and of the hosts
made for it at most one is not gone. -/
structure KeyInv (k : Int) (s : Factory) : Prop where
  obj : ∃ v, item s.hostObj k = .ok v
  uri : ∃ u, item s.hostURI k = .ok u
  dir : ∃ d, item s.hostDir k = .ok d
  held : ∀ h, item s.hostObj k = .ok (some h) → h ∈ hostsOf s k
  nodup : (hostsOf s k).Nodup
  live : ∀ h ∈ hostsOf s k, ∀ h' ∈ hostsOf s k, ¬Gone s h → ¬Gone s h' → h = h'

def AllGone (k : Int) (s : Factory) : Prop := ∀ h ∈ hostsOf s k, Gone s h

/-- The host that is not gone is in its place. -/
def Settled (k : Int) (s : Factory) : Prop := ∀ h ∈ hostsOf s k, Gone s h ∨ item s.hostObj k = .ok (some h)

theorem AllGone.settled {s : Factory} (h : AllGone k s) : Settled k s := fun h' hm => .inl (h h' hm)

/-- A step that does not concern `k`. -/
structure LeavesKey (k : Int) (s s' : Factory) : Prop extends Grows s s' where
  made : hostsOf s' k = hostsOf s k
  obj : ∀ v, item s.hostObj k = .ok v → item s'.hostObj k = .ok v

section
variable {s s' : Factory}

theorem LeavesKey.refl (k : Int) (s : Factory) : LeavesKey k s s := ⟨.refl s, rfl, fun _ h => h⟩

theorem LeavesKey.trans {s'' : Factory} (h : LeavesKey k s s') (h' : LeavesKey k s' s'') : LeavesKey k s s'' :=
  ⟨h.toGrows.trans h'.toGrows, h'.made.trans h.made, fun v hv => h'.obj v (h.obj v hv)⟩

theorem LeavesKey.item (h : LeavesKey k s s') (hi : KeyInv k s) : item s'.hostObj k = item s.hostObj k := by
  obtain ⟨v, hv⟩ := hi.obj
  rw [hv, h.obj v hv]

theorem LeavesKey.inv (h : LeavesKey k s s') (hi : KeyInv k s) : KeyInv k s' where
  obj := hi.obj.imp h.obj
  uri := hi.uri.imp (h.uri k)
  dir := hi.dir.imp (h.dir k)
  held host hm := by rw [h.item hi] at hm; rw [h.made]; exact hi.held host hm
  nodup := by rw [h.made]; exact hi.nodup
  live := by
    rw [h.made]
    exact fun h1 hm1 h2 hm2 hg1 hg2 => hi.live h1 hm1 h2 hm2 (fun g => hg1 (g.mono h.events)) fun g => hg2 (g.mono h.events)

theorem LeavesKey.allGone (h : LeavesKey k s s') (ha : AllGone k s) : AllGone k s' := by
  intro host hm
  rw [h.made] at hm
  exact (ha host hm).mono h.events

theorem LeavesKey.settled (h : LeavesKey k s s') (hi : KeyInv k s) (hs : Settled k s) : Settled k s' := by
  intro host hm
  rw [h.made] at hm
  rw [h.item hi]
  exact (hs host hm).imp_left (·.mono h.events)

theorem LeavesKey.slotKept (h : LeavesKey k s s') : SlotKept k s s' := by
  intro host hm hne _
  rw [Option.mem_def, Factory.slot] at hm
  split at hm
  · rename_i v hv
    rw [Factory.slot, h.obj v hv] at hne
    exact absurd hm hne
  · cases hm

end

/-- What concerns `k` is a store to its entry, and making a host for it. -/
def Op.touches (k : Int) : Op → Bool
  | .hostObjSet k' _ => decide (k' = k)
  | .createApplicationHost k' _ _ => decide (k' = k)
  | .listDrop _ => true
  | _ => false

theorem leavesKey_note {s s' : Factory} {l : List Event} (hevents : s'.events = s.events ++ l)
    (hmakes : l.filterMap (Event.makes k) = []) (huri : s'.hostURI = s.hostURI) (hdir : s'.hostDir = s.hostDir)
    (hobj : s'.hostObj = s.hostObj) : LeavesKey k s s' where
  events e he := by rw [hevents]; exact List.mem_append_left _ he
  uri _ _ hu := huri ▸ hu
  dir _ _ hd := hdir ▸ hd
  made := by rw [hostsOf, hostsOf, hevents, List.filterMap_append, hmakes, List.append_nil]
  obj _ hv := hobj ▸ hv

theorem exec_leaves {t : Nat} {o : Op} {x : Choice} {s s' : Factory} {r : Except Exn o.Ans} (ho : o.touches k = false)
    (h : exec t o x s = some (r, s')) : LeavesKey k s s' := by
  cases exec_did h with
  | @stored k' v v₀ hv₀ =>
    have hne : k ≠ k' := fun he => by simp [Op.touches, he] at ho
    refine ⟨⟨fun e => List.mem_append_left _, fun _ _ h => h, fun _ _ h => h⟩, ?_, fun v' hv' => ?_⟩
    · simp [hostsOf, Factory.store, Event.makes]
    · rw [item_store hv₀, if_neg hne, hv']
  | @created k' uri dir =>
    have hne : k' ≠ k := by simpa [Op.touches] using ho
    exact leavesKey_note rfl (by simp [Event.makes, hne]) rfl rfl rfl
  | configured => exact leavesKey_note rfl rfl rfl rfl rfl
  | configureRaised e => exact leavesKey_note rfl rfl rfl rfl rfl
  | dispatched b raised =>
    exact leavesKey_note rfl (by cases b <;> cases raised <;> simp [dispatchEvents, started, Event.makes]) rfl rfl rfl
  | @exited section_end m _ _ =>
    exact leavesKey_note rfl (by cases section_end <;> simp [sectionEnd, Event.makes]) rfl rfl rfl
  | addedURI l hl => exact ⟨⟨fun _ h => h, fun _ _ h => item_add hl h, fun _ _ h => h⟩, rfl, fun _ h => h⟩
  | addedDir l hl => exact ⟨⟨fun _ h => h, fun _ _ h => h, fun _ _ h => item_add hl h⟩, rfl, fun _ h => h⟩
  | addedObj l hl => exact ⟨⟨fun _ h => h, fun _ _ h => h, fun _ _ h => h⟩, rfl, fun _ h => item_add hl h⟩
  | listDropped l => cases ho
  | _ => exact leavesKey_note (l := []) (by simp) rfl rfl rfl rfl

/-- Starting a call concerns no key. -/
theorem leavesKey_enter {t : Nat} {c : Call} {s : Factory} : LeavesKey k s (enter t c s) := by
  cases c with
  | hostFinalized k' h => exact leavesKey_note rfl rfl rfl rfl rfl
  | _ => exact leavesKey_note (l := []) (by simp [enter]) rfl rfl rfl rfl

theorem Ledger.enter {t : Nat} {c : Call} {s : Factory} (hl : Ledger s) : Ledger (enter t c s) := by
  cases c with
  | hostFinalized k' h => exact hl.plain rfl (by simp [Event.connects]) rfl
  | _ => exact hl.plain (l := []) (by simp [HostFactory.enter]) (by simp) rfl

/-! ## `ConnectHost` -/

/-- `h` is in its place, was not tried yet, and the others are gone. -/
structure Placed (k : Int) (h : HostId) (s : Factory) : Prop where
  place : item s.hostObj k = .ok (some h)
  untried : Untried s h
  sole : ∀ h' ∈ hostsOf s k, h' = h ∨ Gone s h'

/-- `h` was made, was not tried yet, and the others are gone, as is the one in
its place. -/
structure Made (k : Int) (h : HostId) (s : Factory) : Prop where
  made : h ∈ hostsOf s k
  untried : Untried s h
  sole : ∀ h' ∈ hostsOf s k, h' = h ∨ Gone s h'
  before : ∀ h', item s.hostObj k = .ok (some h') → Gone s h'

/-- What is known in `ConnectHost` when the hosts of its key are gone at the
start and no other thread concerns itself with the key. -/
def connectKnows (k : Int) : ConnectPoint → Factory → Prop
  | .start => AllGone k
  | .made (some h) => Made k h
  | .made none => AllGone k
  | .stored h => Placed k h
  | .located h _ => Placed k h
  | .placed h _ _ => Placed k h
  | .unmade => AllGone k
  | .raised => AllGone k
  | .connected => Settled k
  | .unconnected => Settled k
  | .escaped => Settled k

/-- What an operation of `ConnectHost` on `k` keeps. -/
structure Connects (k : Int) (s s' : Factory) : Prop where
  ledger : Ledger s'
  inv : KeyInv k s'
  grows : Grows s s'
  kept : SlotKept k s s'
  monitor : s'.monitor = s.monitor

section
variable {t : Nat} {x : Choice} {s s' : Factory}

theorem slot_eq {v : Option HostId} (h : item s.hostObj k = .ok v) : s.slot k = v := by
  rw [Factory.slot, h]

theorem Connects.refl (hl : Ledger s) (hi : KeyInv k s) : Connects k s s :=
  ⟨hl, hi, .refl s, (LeavesKey.refl k s).slotKept, rfl⟩

/-- Making a host when all are gone. -/
theorem connects_create (hl : Ledger s) (hi : KeyInv k s) (ha : AllGone k s) (uri dir : WString) :
    Connects k s (s.newHost k uri dir) ∧ Made k s.hosts (s.newHost k uri dir) := by
  have hmem : ∀ e ∈ s.events, e ∈ s.events ++ [Event.created k s.hosts] := fun e => List.mem_append_left _
  have hhosts : hostsOf (s.newHost k uri dir) k = hostsOf s k ++ [s.hosts] := by
    simp [hostsOf, Factory.newHost, Event.makes]
  have hsole : ∀ h ∈ hostsOf s k ++ [s.hosts], h = s.hosts ∨ Gone (s.newHost k uri dir) h := by
    intro h hm
    rcases List.mem_append.mp hm with hm | hm
    · exact .inr ((ha h hm).mono hmem)
    · exact .inl (List.mem_singleton.mp hm)
  refine ⟨⟨hl.created k uri dir, ⟨hi.obj, hi.uri, hi.dir, ?_, ?_, ?_⟩, ⟨hmem, fun _ _ h => h, fun _ _ h => h⟩, ?_, rfl⟩,
    ⟨?_, ?_, ?_, ?_⟩⟩
  · intro h hm
    rw [hhosts]; exact List.mem_append_left _ (hi.held h hm)
  · rw [hhosts, List.nodup_append]
    refine ⟨hi.nodup, by simp, fun a ha' b hb => ?_⟩
    rw [List.mem_singleton] at hb
    subst hb
    exact Nat.ne_of_lt (fresh_hostsOf hl ha')
  · rw [hhosts]
    intro h hm h' hm' hg hg'
    rw [(hsole h hm).resolve_right hg, (hsole h' hm').resolve_right hg']
  · intro h hm hne _; exact absurd hm hne
  · rw [hhosts]; simp
  · intro e hm
    rcases List.mem_append.mp hm with hm | hm
    · exact hl.untried e hm
    · cases List.mem_singleton.mp hm; exact ⟨rfl, rfl⟩
  · rw [hhosts]; exact hsole
  · exact fun h hm => (ha h (hi.held h hm)).mono hmem

/-- Storing over a host that is gone, or over null. -/
theorem connects_store {v₀ v : Option HostId} {c : Caller} (hl : Ledger s) (hi : KeyInv k s)
    (hv₀ : item s.hostObj k = .ok v₀) (hgone : ∀ h, v₀ = some h → Gone s h) (hv : ∀ h, v = some h → h ∈ hostsOf s k) :
    Connects k s (s.store c k v) := by
  have hhosts : hostsOf (s.store c k v) k = hostsOf s k := by simp [hostsOf, Factory.store, Event.makes]
  have hmem : ∀ e ∈ s.events, e ∈ (s.store c k v).events := fun e => List.mem_append_left _
  have hplace : item (s.store c k v).hostObj k = .ok v := by rw [item_store hv₀, if_pos rfl]
  refine ⟨hl.plain rfl (by simp [Event.connects]) rfl, ⟨⟨v, hplace⟩, hi.uri, hi.dir, ?_, ?_, ?_⟩,
    ⟨hmem, fun _ _ h => h, fun _ _ h => h⟩, ?_, rfl⟩
  · intro h hm
    rw [hplace] at hm; cases hm
    rw [hhosts]; exact hv h rfl
  · rw [hhosts]; exact hi.nodup
  · rw [hhosts]
    exact fun h hm h' hm' hg hg' => hi.live h hm h' hm' (fun g => hg (g.mono hmem)) fun g => hg' (g.mono hmem)
  · intro h hm _ hc
    rw [slot_eq hv₀, Option.mem_def] at hm
    exact hl.lost (hgone h hm) hc

theorem gone_of_allGone {v₀ : Option HostId} (hi : KeyInv k s) (ha : AllGone k s) (hv₀ : item s.hostObj k = .ok v₀)
    (h : HostId) (he : v₀ = some h) : Gone s h :=
  ha h (hi.held h (he ▸ hv₀))

theorem allGone_store {c : Caller} {v : Option HostId} (ha : AllGone k s) : AllGone k (s.store c k v) := by
  intro h hm
  have hhosts : hostsOf (s.store c k v) k = hostsOf s k := by simp [hostsOf, Factory.store, Event.makes]
  rw [hhosts] at hm
  exact (ha h hm).mono fun e => List.mem_append_left _

/-- `Configure` on the host in its place; `e` says how it ended. -/
theorem connects_configure {h : HostId} {e : Event} (hl : Ledger s) (hi : KeyInv k s) (hp : Placed k h s)
    (he : e.connects = some h) (hmake : e.makes k = none) : Connects k s (s.note [e]) := by
  have hleaves : LeavesKey k s (s.note [e]) :=
    leavesKey_note rfl (by simp [List.filterMap, hmake]) rfl rfl rfl
  exact ⟨hl.tried hp.untried (fresh_hostsOf hl (hi.held h hp.place)) he, hleaves.inv hi, hleaves.toGrows,
    hleaves.slotKept, rfl⟩

/-- The host made is put in its place. -/
theorem Made.placed {h : HostId} {v₀ : Option HostId} (hp : Made k h s) (hv₀ : item s.hostObj k = .ok v₀) :
    Placed k h (s.store (s.caller t) k (some h)) := by
  refine ⟨by rw [item_store hv₀, if_pos rfl], fun e hm => ?_, fun h' hm => ?_⟩
  · rcases List.mem_append.mp hm with hm | hm
    · exact hp.untried e hm
    · cases List.mem_singleton.mp hm; exact ⟨rfl, rfl⟩
  · have hhosts : hostsOf (s.store (s.caller t) k (some h)) k = hostsOf s k := by
      simp [hostsOf, Factory.store, Event.makes]
    rw [hhosts] at hm
    exact (hp.sole h' hm).imp_right (·.mono fun e => List.mem_append_left _)

/-- What makes no host leaves the others gone. -/
theorem Placed.sole_note {h h' : HostId} {e : Event} (hp : Placed k h s) (hmake : e.makes k = none)
    (hm : h' ∈ hostsOf (s.note [e]) k) : h' = h ∨ Gone (s.note [e]) h' := by
  rw [hostsOf_append] at hm
  simp only [List.filterMap, hmake, List.append_nil] at hm
  exact (hp.sole h' hm).imp_right (·.mono fun e => List.mem_append_left _)

/-- One operation of `ConnectHost`. -/
theorem connect_step {p : ConnectPoint} {o : Op} {next : Except Exn o.Ans → ConnectPoint} {r : Except Exn o.Ans}
    (hl : Ledger s) (hi : KeyInv k s) (hp : connectKnows k p s) (hedge : ConnectPoint.Edge k p o next)
    (he : exec t o x s = some (r, s')) : Connects k s s' ∧ connectKnows k (next r) s' := by
  cases hedge with
  | create uri dir =>
    rcases exec_createApplicationHost he with ⟨rfl, rfl⟩ | ⟨rfl, rfl | ⟨e, rfl⟩⟩
    · exact connects_create hl hi hp uri dir
    · exact ⟨.refl hl hi, hp⟩
    · exact ⟨.refl hl hi, hp⟩
  | store v =>
    rcases exec_hostObjSet he with ⟨e, rfl, rfl, herr⟩ | ⟨v₀, rfl, hv₀, rfl⟩
    · obtain ⟨v', hv'⟩ := hi.obj
      rw [herr] at hv'; cases hv'
    · cases v with
      | none =>
        exact ⟨connects_store hl hi hv₀ (gone_of_allGone hi hp hv₀) (by simp), allGone_store hp⟩
      | some h =>
        refine ⟨connects_store hl hi hv₀ (fun h' he' => hp.before h' (he' ▸ hv₀)) ?_, hp.placed hv₀⟩
        rintro h' ⟨⟩
        exact hp.made
  | uri h =>
    cases x <;> simp only [exec, Option.some.injEq, Prod.mk.injEq, reduceCtorEq] at he
    obtain ⟨rfl, rfl⟩ := he
    obtain ⟨u, hu⟩ := hi.uri
    rw [hu]
    exact ⟨.refl hl hi, hp⟩
  | dir h uri =>
    cases x <;> simp only [exec, Option.some.injEq, Prod.mk.injEq, reduceCtorEq] at he
    obtain ⟨rfl, rfl⟩ := he
    obtain ⟨d, hd⟩ := hi.dir
    rw [hd]
    exact ⟨.refl hl hi, hp⟩
  | configure h uri dir =>
    rcases exec_configure he with ⟨rfl, rfl⟩ | ⟨b, e, -, rfl, rfl⟩
    · refine ⟨connects_configure hl hi hp rfl rfl, fun h' hm => ?_⟩
      rcases hp.sole_note rfl hm with rfl | hg
      · exact .inr hp.place
      · exact .inl hg
    · refine ⟨connects_configure hl hi hp rfl rfl, fun h' hm => ?_⟩
      rcases hp.sole_note rfl hm with rfl | hg
      · exact ⟨.configureRaised k h' e, List.mem_append_right _ (List.mem_singleton.mpr rfl), .inr (by simp [Event.drops])⟩
      · exact hg
  | clear =>
    rcases exec_hostObjSet he with ⟨e, rfl, rfl, herr⟩ | ⟨v₀, rfl, hv₀, rfl⟩
    · exact ⟨.refl hl hi, hp.settled⟩
    · exact ⟨connects_store hl hi hv₀ (gone_of_allGone hi hp hv₀) (by simp), (allGone_store hp).settled⟩

end

theorem connectKnows_silent {p q : ConnectPoint} {s : Factory} (h : ConnectPoint.Silent p q)
    (hp : connectKnows k p s) : connectKnows k q s := by
  cases h with
  | start_raised => exact hp
  | unmade_raised => exact hp
  | unmade_unconnected => exact hp.settled
  | raised_escaped => exact hp.settled

theorem Untried.leaves {s s' : Factory} {h : HostId} (hu : Untried s h)
    (he : ∀ e ∈ s'.events, e.connects ≠ none → e ∈ s.events) : Untried s' h := by
  intro e hm
  by_cases hc : e.connects = none
  · constructor <;> by_contra hne <;> rw [Bool.not_eq_false] at hne
    · rw [isConfigureOf_connects hne] at hc; cases hc
    · rw [drops_connects hne] at hc; cases hc
  · exact hu e (he e hm hc)

/-- What is known in `ConnectHost` outlasts steps that leave the key. -/
theorem connectKnows_leaves {s s' : Factory} (h : LeavesKey k s s')
    (he : ∀ e ∈ s'.events, e.connects ≠ none → e ∈ s.events) (hi : KeyInv k s) :
    ∀ p, connectKnows k p s → connectKnows k p s' := by
  have hplaced : ∀ host, Placed k host s → Placed k host s' := by
    intro host hp
    refine ⟨(h.item hi).trans hp.place, hp.untried.leaves he, fun h' hm => ?_⟩
    rw [h.made] at hm
    exact (hp.sole h' hm).imp_right (·.mono h.events)
  intro p hp
  cases p with
  | made v =>
    cases v with
    | none => exact h.allGone hp
    | some host =>
      refine ⟨h.made ▸ hp.made, hp.untried.leaves he, fun h' hm => ?_, fun h' hm => ?_⟩
      · rw [h.made] at hm
        exact (hp.sole h' hm).imp_right (·.mono h.events)
      · rw [h.item hi] at hm
        exact (hp.before h' hm).mono h.events
  | start | unmade | raised => exact h.allGone hp
  | stored host => exact hplaced host hp
  | located host uri => exact hplaced host hp
  | placed host uri dir => exact hplaced host hp
  | connected | unconnected | escaped => exact h.settled hi hp

/-! ## The state after the calls of `CreateHost` -/

/-- The first `n` keys are in order, and of keys beyond key `n` nothing is known. -/
structure KeysInv (n : Nat) (s : Factory) : Prop where
  out : s.owner = none
  ledger : Ledger s
  old : ∀ k : Int, 0 ≤ k → k < n → KeyInv k s ∧ Settled k s
  new : ∀ k : Int, n < k → hostsOf s k = []

section
variable {n : Nat} {t : Nat} {x : Choice} {s s' : Factory} {o : Op} {r : Except Exn o.Ans}

/-- The step of a `CreateHost` that is at key `n`. -/
theorem KeysInv.step (hi : KeysInv n s) (ho : ∀ k : Int, k ≠ n → o.touches k = false) (hl : Ledger s')
    (hmon : s'.owner = s.owner) (he : exec t o x s = some (r, s')) : KeysInv n s' where
  out := hmon.trans hi.out
  ledger := hl
  old k h0 hk := by
    have hleaves := exec_leaves (ho k (by omega)) he
    obtain ⟨hkey, hset⟩ := hi.old k h0 hk
    exact ⟨hleaves.inv hkey, hleaves.settled hkey hset⟩
  new k hk := by rw [(exec_leaves (ho k (by omega)) he).made, hi.new k hk]

theorem blind_keys : Blind (KeysInv n) := by
  intro s l hi
  have hleaves : ∀ k, LeavesKey k s { s with error_log := l } := fun k =>
    leavesKey_note (l := []) (by simp) rfl rfl rfl rfl
  exact ⟨hi.out, hi.ledger.plain (l := []) (by simp) (by simp) rfl, fun k h0 hk =>
    ⟨(hleaves k).inv (hi.old k h0 hk).1, (hleaves k).settled (hi.old k h0 hk).1 (hi.old k h0 hk).2⟩,
    fun k hk => hi.new k hk⟩

/-- `ConnectHost` for the new key, alone. -/
def mountedConnect (n : Nat) (L : Factory → Prop) (hL : Blind L)
    (hkeep : ∀ {t o x s s'} {r : Except Exn o.Ans}, o.keepsLists = true → L s → exec t o x s = some (r, s') → L s') :
    (alone (KeysInv n)).Outline 0 (connectFlow n) where
  knows p s := L s ∧ KeyInv n s ∧ connectKnows n p s
  stable p := Blind.stable fun s l ⟨h1, h2, h3⟩ => by
    have hleaves : LeavesKey n s { s with error_log := l } := leavesKey_note (l := []) (by simp) rfl rfl rfl rfl
    exact ⟨hL s l h1, hleaves.inv h2, connectKnows_leaves hleaves (fun _ hm _ => hm) h2 p h3⟩
  step {p o next} hedge s x r s' hi hp _ he := by
    obtain ⟨hc, hknows⟩ := connect_step hi.ledger hp.2.1 hp.2.2 hedge he
    have ho : ∀ k : Int, k ≠ n → o.touches k = false := by
      intro k hne
      cases hedge <;> simp [Op.touches, Ne.symm hne]
    have howner : s'.owner = s.owner := by rw [Factory.owner, Factory.owner, hc.monitor]
    exact ⟨alone_step (hi.step ho hc.ledger howner he), hkeep (connectEdge_keepsLists hedge) hp.1 he, hc.inv, hknows⟩
  silent h _ _ hp := ⟨hp.1, hp.2.1, connectKnows_silent h hp.2.2⟩

end

/-- The new key, at the points of `CreateHost`. -/
def newKeyKnows (n : Nat) : MountPoint → Factory → Prop
  | .connecting _, s => KeyInv n s ∧ AllGone n s
  | .connected _, s => KeyInv n s ∧ Settled n s
  | .unconnected _, s => KeyInv n s ∧ Settled n s
  | .raised, s => KeyInv n s ∧ Settled n s
  | _, s => hostsOf s n = []

theorem blind_newKeyKnows (n : Nat) (q : MountPoint) : Blind (newKeyKnows n q) := by
  intro s l h
  have hleaves : LeavesKey n s { s with error_log := l } := leavesKey_note (l := []) (by simp) rfl rfl rfl rfl
  cases q with
  | connecting k => exact ⟨hleaves.inv h.1, hleaves.allGone h.2⟩
  | connected k => exact ⟨hleaves.inv h.1, hleaves.settled h.1 h.2⟩
  | unconnected k => exact ⟨hleaves.inv h.1, hleaves.settled h.1 h.2⟩
  | raised => exact ⟨hleaves.inv h.1, hleaves.settled h.1 h.2⟩
  | _ => exact h

section
variable {us ds : List WString} {n : Nat} {v p : WString} {svr : Nat}

theorem keyInv_new {s : Factory} {us ds : List WString} (hl : Lists us ds (n + 1) (n + 1) s)
    (hu : us.length = n + 1) (hd : ds.length = n + 1) (hnull : ∀ v, item s.hostObj n = .ok v → v = none)
    (hnone : hostsOf s n = []) : KeyInv n s := by
  have hitem : ∀ {α : Type} (l : List α), l.length = n + 1 → ∃ a, item (some l) (n : Int) = .ok a := by
    intro α l hlen
    exact ⟨l[n], item_eq_ok.mpr ⟨l, rfl, by omega, by simp [List.getElem?_eq_getElem (show n < l.length by omega)]⟩⟩
  obtain ⟨l, hobj, hlen⟩ := hl.obj
  refine ⟨hobj ▸ hitem l hlen, hl.uri ▸ hitem us hu, hl.dir ▸ hitem ds hd, fun h hm => ?_, ?_, ?_⟩
  · cases hnull _ hm
  · rw [hnone]; exact List.nodup_nil
  · rw [hnone]; simp

def mountedOutline (us ds : List WString) (n : Nat) (hu : us.length = n) (hd : ds.length = n) (v p : WString)
    (svr : Nat) : (alone (KeysInv n)).Outline 0 (mountFlow v p svr) where
  knows q s := mountKnows us ds n v p q s ∧ newKeyKnows n q s
  stable q := Blind.stable fun s l h => ⟨blind_mountKnows q s l h.1, blind_newKeyKnows n q s l h.2⟩
  step {q o next} hedge s x r s' hi hk _ he := by
    obtain ⟨⟨a, ha⟩, hk'⟩ := mount_step hk.1 hedge he
    have ho : ∀ k, o.touches k = false := by intro k; cases hedge <;> rfl
    have hledger : Ledger s' := exec_ledger hi.ledger (by rintro k h uri dir rfl; cases hedge) he
    have howner : s'.owner = s.owner := by
      cases exec_did he with
      | entered n _ => cases hedge
      | exited m _ _ => cases hedge
      | _ => rfl
    have hmade : hostsOf s' n = hostsOf s n := (exec_leaves (ho n) he).made
    refine ⟨alone_step (hi.step (fun k _ => ho k) hledger howner he), hk', ?_⟩
    subst ha
    cases hedge with
    | count => exact hmade.trans hk.2
    | svr k => exact hmade.trans hk.2
    | uri k => exact hmade.trans hk.2
    | dir k => exact hmade.trans hk.2
    | obj k =>
      have hnone : hostsOf s' n = [] := hmade.trans hk.2
      refine ⟨keyInv_new hk'.2 (by simp [hu]) (by simp [hd]) (fun v hv => ?_) hnone, fun h hm => ?_⟩
      · obtain ⟨l, hobj, hlen⟩ := hk.1.2.obj
        cases x <;> simp only [exec, reduceCtorEq] at he
        rw [hobj] at he
        cases he
        obtain ⟨l', hl', -, hget⟩ := item_eq_ok.mp hv
        cases hl'
        simpa [← hlen] using hget.symm
      · rw [hnone] at hm; cases hm
  silent h s _ hk := by cases h; exact ⟨hk.1.2, hk.2⟩

end

theorem Mounted.keys {s : Factory} (h : Mounted s) : ∃ us ds n, us.length = n ∧ ds.length = n ∧ Lists us ds n n s ∧
    KeysInv n s ∧ hostsOf s n = [] := by
  induction h with
  | new =>
    refine ⟨[], [], 0, rfl, rfl, ⟨rfl, rfl, ⟨[], rfl, rfl⟩, ⟨[], rfl, rfl⟩⟩, ⟨rfl, ⟨?_, ?_⟩, ?_, fun _ _ => rfl⟩, rfl⟩
    · intro e hm; cases hm
    · rintro h ⟨e, hm, -⟩; cases hm
    · intro k h0 hk; omega
  | @create s s' v p svr r _ hrun ih =>
    obtain ⟨us, ds, n, hu, hd, hl, hi, hnone⟩ := ih
    obtain ⟨hl', -⟩ := createHost_lists hrun hl
    refine ⟨us ++ [v], ds ++ [replaceSlashes p], n + 1, by simp [hu], by simp [hd], hl', ?_⟩
    have htriple := createHost_outline (mountedOutline us ds n hu hd v p svr) (logBlind_alone blind_keys) fun k => by
      refine .of_fact (fun s _ hk => hk.1.1) fun hkn => ?_
      subst hkn
      refine ((connectHost_outline (mountedConnect n _ blind_lists exec_lists) (logBlind_alone blind_keys)).strengthen
        fun s _ hk => ⟨hk.1.2, hk.2⟩).weaken fun r s _ hk => ?_
      rcases r with e | _ | _
      · exact ⟨hk.1, hk.2⟩
      · exact ⟨⟨rfl, hk.1⟩, hk.2⟩
      · exact ⟨⟨rfl, hk.1⟩, hk.2⟩
    have henter : ∀ k, LeavesKey k s (enter 0 (.createHost v p svr) s) := fun _ => leavesKey_enter
    obtain ⟨hi', hends⟩ := hrun.of_triple htriple ⟨hi.out, hi.ledger.enter, fun k h0 hk =>
      ⟨(henter k).inv (hi.old k h0 hk).1, (henter k).settled (hi.old k h0 hk).1 (hi.old k h0 hk).2⟩, hi.new⟩
      ⟨⟨hl.uri, hl.dir, hl.obj, hl.svr⟩, hnone⟩
    have hkey : KeyInv n s' ∧ Settled n s' := by
      cases r with
      | error e => exact hends.2
      | ok k => rcases hends with hk | ⟨-, m, hk⟩ <;> exact hk.2
    refine ⟨⟨hi'.out, hi'.ledger, fun k h0 hk => ?_, fun k hk => hi'.new k (by omega)⟩, hi'.new _ (by omega)⟩
    by_cases heq : k = n
    · subst heq; exact hkey
    · exact hi'.old k h0 (by omega)


end ModAspNet.L4.HostFactory
