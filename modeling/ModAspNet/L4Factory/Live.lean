import ModAspNet.L4Factory.Hosts
import Mathlib.Data.Finset.Card

/-!
# Live hosts

A request that found `hostObj[HostKey]` null goes to the restart section and
connects a new host there, also when, by the time it holds the monitor, another
request has already done so: the section tests `obj`, the value read before the
monitor was taken, and not the value it has just read. The second host takes
the place of the first, which is alive and serving.

* `liveOutline`: inside the monitor the hosts of the key are settled, or all of
  them are gone while one is connected.
* `live_host_kept`: in every run in which no restart that came with null meets a
  live host under the monitor, a configured host leaves its place only when it
  was lost, and no more hosts are made than were lost, and one.
-/
namespace ModAspNet.L4.HostFactory

open ModAspNet.L1.Managed
open ModAspNet.Core

variable {k : Int}

/-! ## The property -/

def hostsLost (s : Factory) (k : Int) : List HostId := (hostsOf s k).filter fun h => decide (Lost s h)

/-- A run of the requests and the finalizers of a key, after the calls of
`CreateHost`. -/
structure ServiceRun (k : Int) where
  start : Factory
  mounted : Mounted start
  key : ∃ v, item start.hostObj k = .ok v
  actions : List FAction
  last : FConfig
  ran : run exec factoryTasks (.quiet start) actions = some last

/-- No live host is discarded in the run. -/
def ServiceRun.KeepsLive (R : ServiceRun k) : Prop :=
  Along exec factoryTasks (fun c c' => SlotKept k c.shared c'.shared) (.quiet R.start) R.actions

instance (R : ServiceRun k) : Decidable R.KeepsLive :=
  inferInstanceAs (Decidable (Along _ _ _ _ _))

/-- At most one host more was made than was lost. -/
def ServiceRun.OneMore (R : ServiceRun k) : Prop :=
  (hostsOf R.last.shared k).length ≤ (hostsLost R.last.shared k).length + 1

def Call.isFor (k : Int) : Call → Bool
  | .handleHostRequest k' _ => decide (k' = k)
  | .hostFinalized k' _ => decide (k' = k)
  | _ => false

/-- The calls are requests for `k` and finalizers of hosts under `k`. -/
def requestsFor (k : Int) : Assumption Op Call Choice Factory where
  call c _ := c.isFor k = true
  step _ _ _ _ := True

/-- The key read under the monitor by a restart that came with null. -/
def Op.restartsOn : Op → Option Int
  | .hostObjGet k (.tryobj none) => some k
  | _ => none

/-- Such a restart reads null there, or a host that is gone. -/
def restartsNeeded (k : Int) : Assumption Op Call Choice Factory where
  call c _ := c.isFor k = true
  step _ o _ s := ∀ k' ∈ o.restartsOn, ∀ h ∈ s.slot k', Gone s h

instance (c : Call) (s : Factory) : Decidable ((requestsFor k).call c s) :=
  inferInstanceAs (Decidable (c.isFor k = true))

instance (t : Nat) (o : Op) (x : Choice) (s : Factory) : Decidable ((requestsFor k).step t o x s) := isTrue trivial

instance (c : Call) (s : Factory) : Decidable ((restartsNeeded k).call c s) :=
  inferInstanceAs (Decidable (c.isFor k = true))

instance (t : Nat) (o : Op) (x : Choice) (s : Factory) : Decidable ((restartsNeeded k).step t o x s) :=
  inferInstanceAs (Decidable (∀ k' ∈ o.restartsOn, ∀ h ∈ s.slot k', Gone s h))

/-! ## Under the monitor -/

/-- What the other threads do: while `t` is inside the monitor they leave the
key and the hosts alone, and they neither take `t` out of it nor put it in. -/
structure Yields (k : Int) (t : Nat) (s s' : Factory) : Prop where
  grows : Grows s s'
  mine : s.owner = some t → s'.owner = some t ∧ LeavesKey k s s' ∧ ∀ e ∈ s'.events, e.connects ≠ none → e ∈ s.events
  others : s.owner ≠ some t → s'.owner ≠ some t

structure LiveInv (k : Int) (s : Factory) : Prop where
  ledger : Ledger s
  key : KeyInv k s
  settled : s.owner = none → Settled k s

def live (k : Int) (A : Assumption Op Call Choice Factory) : Spec exec A where
  inv := LiveInv k
  rely := Yields k
  good := fun _ _ => SlotKept k
  refl := fun _ s => ⟨.refl s, fun h => ⟨h, .refl k s, fun _ h _ => h⟩, fun h => h⟩
  trans := fun t s s' s'' h h' => by
    refine ⟨h.grows.trans h'.grows, fun ho => ?_, fun ho => h'.others (h.others ho)⟩
    obtain ⟨ho', hl, he⟩ := h.mine ho
    obtain ⟨ho'', hl', he'⟩ := h'.mine ho'
    exact ⟨ho'', hl.trans hl', fun e hm hc => he e (he' e hm hc) hc⟩

/-- Operations that neither concern `k` nor make or configure a host. -/
def Op.isQuiet (k : Int) (o : Op) : Bool :=
  !o.touches k && match o with
    | .createApplicationHost _ _ _ => false
    | .configure _ _ _ _ => false
    | _ => true

section
variable {A : Assumption Op Call Choice Factory} {t : Nat} {x : Choice} {s s' : Factory} {o : Op} {r : Except Exn o.Ans}

theorem exec_owner (h : exec t o x s = some (r, s')) {t' : Nat} (ht : t' ≠ t) :
    s'.owner = some t' ↔ s.owner = some t' := by
  cases exec_did h with
  | entered n ho =>
    have hne : some t ≠ some t' := fun he => ht (Option.some.inj he).symm
    rcases ho with ho | ho <;> rw [ho] <;> simp [Factory.owner, Ne.symm ht]
  | exited m ho hm =>
    rw [ho]
    rcases hm with rfl | ⟨n, rfl⟩ <;> simp [Factory.owner, Factory.note, Ne.symm ht]
  | _ => exact Iff.rfl

theorem exec_connects (ho : o.isQuiet k = true) (h : exec t o x s = some (r, s')) :
    ∀ e ∈ s'.events, e.connects ≠ none → e ∈ s.events := by
  have happend : ∀ l : List Event, (∀ e ∈ l, e.connects = none) →
      ∀ e ∈ s.events ++ l, e.connects ≠ none → e ∈ s.events := by
    intro l hl e hm hc
    rcases List.mem_append.mp hm with hm | hm
    · exact hm
    · exact absurd (hl e hm) hc
  cases exec_did h with
  | created => simp [Op.isQuiet] at ho
  | configured => simp [Op.isQuiet] at ho
  | configureRaised e => simp [Op.isQuiet] at ho
  | stored h => exact happend _ (by simp [Event.connects])
  | dispatched b raised =>
    exact happend _ (by cases b <;> cases raised <;> simp [dispatchEvents, started, Event.connects])
  | @exited section_end m _ _ => exact happend _ (by cases section_end <;> simp [sectionEnd, Event.connects])
  | _ => exact fun _ hm _ => hm

theorem isQuiet_touches (ho : o.isQuiet k = true) : o.touches k = false := by
  simp only [Op.isQuiet, Bool.and_eq_true, Bool.not_eq_eq_eq_not, Bool.not_true] at ho
  exact ho.1

theorem isQuiet_configure (ho : o.isQuiet k = true) :
    ∀ k' h uri dir, o = .configure k' h uri dir → Untried s h ∧ h < s.hosts := by
  rintro k' h uri dir rfl
  simp [Op.isQuiet] at ho

/-- A quiet operation, wherever it stands. -/
theorem quiet_step (hi : LiveInv k s) (ho : o.isQuiet k = true) (h : exec t o x s = some (r, s'))
    (hout : s'.owner = none → Settled k s) : (live k A).StepOK t o s s' ∧ LeavesKey k s s' := by
  have hleaves := exec_leaves (isQuiet_touches ho) h
  refine ⟨⟨⟨exec_ledger hi.ledger (isQuiet_configure ho) h, hleaves.inv hi.key, fun hn =>
    hleaves.settled hi.key (hout hn)⟩, fun t' ht => ⟨hleaves.toGrows, fun hm => ?_, fun hm => ?_⟩, hleaves.slotKept⟩,
    hleaves⟩
  · exact ⟨(exec_owner h ht).mpr hm, hleaves, exec_connects ho h⟩
  · exact fun hm' => hm ((exec_owner h ht).mp hm')

/-- An operation of `ConnectHost` or a store, inside the monitor. -/
theorem inside_step (hm : s.owner = some t) (hc : Connects k s s') : (live k A).StepOK t o s s' ∧ s'.owner = some t := by
  have howner : s'.owner = s.owner := by rw [Factory.owner, Factory.owner, hc.monitor]
  refine ⟨⟨⟨hc.ledger, hc.inv, fun hn => ?_⟩, fun t' ht => ⟨hc.grows, fun hm' => ?_, fun hne => ?_⟩, hc.kept⟩,
    howner.trans hm⟩
  · rw [howner, hm] at hn; cases hn
  · rw [hm] at hm'; exact absurd (Option.some.inj hm').symm ht
  · rw [howner]; exact hne

theorem logBlind_live : LogBlind (live k A) where
  inv s l hi := by
    have hleaves : LeavesKey k s { s with error_log := l } := leavesKey_note (l := []) (by simp) rfl rfl rfl rfl
    exact ⟨hi.ledger.plain (l := []) (by simp) (by simp) rfl, hleaves.inv hi.key,
      fun ho => hleaves.settled hi.key (hi.settled ho)⟩
  rely t s l :=
    have hleaves : LeavesKey k s { s with error_log := l } := leavesKey_note (l := []) (by simp) rfl rfl rfl rfl
    ⟨hleaves.toGrows, fun ho => ⟨ho, hleaves, fun _ hm _ => hm⟩, fun ho => ho⟩
  good t o s l _ :=
    have hleaves : LeavesKey k s { s with error_log := l } := leavesKey_note (l := []) (by simp) rfl rfl rfl rfl
    hleaves.slotKept

end

/-- `ConnectHost` inside the monitor. -/
def liveConnect (A : Assumption Op Call Choice Factory) (t : Nat) (k : Int) : (live k A).Outline t (connectFlow k) where
  knows p s := s.owner = some t ∧ connectKnows k p s
  stable p s s' hi _ hp hr := by
    obtain ⟨ho, hl, he⟩ := hr.mine hp.1
    exact ⟨ho, connectKnows_leaves hl he hi.key p hp.2⟩
  step hedge s x r s' hi hp _ he := by
    obtain ⟨hc, hk⟩ := connect_step hi.ledger hi.key hp.2 hedge he
    obtain ⟨hok, ho⟩ := inside_step hp.1 hc
    exact ⟨hok, ho, hk⟩
  silent h _ _ hp := ⟨hp.1, connectKnows_silent h hp.2⟩

/-! ## Requests and finalizers -/

/-- If `t` is inside the monitor, the hosts are settled: so it is outside the
sections, where a thread may still be inside because an exception kept it. -/
def Calm (k : Int) (t : Nat) (s : Factory) : Prop := s.owner = some t → Settled k s

def Inside (k : Int) (t : Nat) (s : Factory) : Prop := s.owner = some t ∧ Settled k s

/-- The host a restart came with was lost. -/
def CameLost (obj : Option HostId) (s : Factory) : Prop := ∀ h, obj = some h → Lost s h

def liveKnows (k : Int) (t : Nat) : RequestPoint → Factory → Prop
  | .start, s => Calm k t s
  | .came _, s => Calm k t s
  | .fell obj, s => Calm k t s ∧ CameLost obj s
  | .held obj, s => Inside k t s ∧ CameLost obj s
  | .same obj, s => Inside k t s ∧ CameLost obj s ∧ item s.hostObj k = .ok obj
  | .connecting, s => s.owner = some t ∧ AllGone k s
  | .connected, s => Inside k t s
  | .unconnected, s => Inside k t s
  | .chosen _, s => Inside k t s
  | .left, s => Calm k t s
  | .broken, s => Calm k t s
  | .onward _, s => Calm k t s
  | .done, s => Calm k t s

theorem Inside.calm {t : Nat} {s : Factory} (h : Inside k t s) : Calm k t s := fun _ => h.2

section
variable {A : Assumption Op Call Choice Factory} {t : Nat} {s s' : Factory}

theorem stable_calm : (live k A).Stable t (Calm k t) := by
  intro s s' hi _ hc hr ho
  by_cases hm : s.owner = some t
  · exact (hr.mine hm).2.1.settled hi.key (hc hm)
  · exact absurd ho (hr.others hm)

theorem stable_inside : (live k A).Stable t (Inside k t) := by
  intro s s' hi _ hc hr
  obtain ⟨ho, hl, -⟩ := hr.mine hc.1
  exact ⟨ho, hl.settled hi.key hc.2⟩

theorem stable_cameLost (obj : Option HostId) : (live k A).Stable t (CameLost obj) :=
  fun _ _ _ _ hc hr h he => (hc h he).mono hr.grows.events

theorem stable_liveKnows (p : RequestPoint) : (live k A).Stable t (liveKnows k t p) := by
  cases p with
  | start | came _ | left | broken | onward _ | done => exact stable_calm
  | connected | unconnected | chosen _ => exact stable_inside
  | fell obj => exact stable_calm.and (stable_cameLost obj)
  | held obj => exact stable_inside.and (stable_cameLost obj)
  | same obj =>
    intro s s' hi hi' hp hr
    obtain ⟨-, hl, -⟩ := hr.mine hp.1.1
    exact ⟨stable_inside s s' hi hi' hp.1 hr, stable_cameLost obj s s' hi hi' hp.2.1 hr, hl.obj _ hp.2.2⟩
  | connecting =>
    intro s s' hi _ hp hr
    obtain ⟨ho, hl, -⟩ := hr.mine hp.1
    exact ⟨ho, hl.allGone hp.2⟩

/-- A quiet operation other than on the monitor. -/
theorem calm_step {o : Op} {x : Choice} {r : Except Exn o.Ans} (hi : LiveInv k s) (ho : o.isQuiet k = true)
    (hmon : s'.owner = s.owner) (h : exec t o x s = some (r, s')) :
    (live k A).StepOK t o s s' ∧ LeavesKey k s s' :=
  quiet_step hi ho h fun hn => hi.settled (hmon ▸ hn)

theorem LeavesKey.calm (h : LeavesKey k s s') (hi : LiveInv k s) (hmon : s'.owner = s.owner) (hc : Calm k t s) :
    Calm k t s' :=
  fun ho => h.settled hi.key (hc (hmon ▸ ho))

/-- `Monitor::Exit`, with the hosts settled if `t` is inside. -/
theorem exit_step {x : Choice} {section_end : Option Int} {r : Except Exn Unit} (hi : LiveInv k s) (hc : Calm k t s)
    (h : exec t (.monitorExit section_end) x s = some (r, s')) :
    (live k A).StepOK t (.monitorExit section_end) s s' ∧ Calm k t s' := by
  rcases exec_monitorExit h with ⟨m, -, ho, -, rfl⟩ | ⟨-, -, rfl⟩
  · obtain ⟨hok, hl⟩ := quiet_step (A := A) hi rfl h fun _ => hc ho
    exact ⟨hok, fun _ => hl.settled hi.key (hc ho)⟩
  · obtain ⟨hok, -⟩ := calm_step (A := A) hi rfl rfl h
    exact ⟨hok, hc⟩

/-- `Monitor::Enter`. -/
theorem enter_step {x : Choice} {r : Except Exn Unit} (hi : LiveInv k s) (hc : Calm k t s)
    (h : exec t .monitorEnter x s = some (r, s')) :
    (live k A).StepOK t .monitorEnter s s' ∧ LeavesKey k s s' ∧ Calm k t s' ∧ (r = .ok () → Inside k t s') := by
  rcases exec_monitorEnter h with ⟨n, -, ho, rfl⟩ | ⟨e, rfl, rfl⟩
  · have hs : Settled k s := ho.elim hi.settled hc
    obtain ⟨hok, hl⟩ := quiet_step (A := A) hi rfl h fun _ => hs
    have hs' := hl.settled hi.key hs
    exact ⟨hok, hl, fun _ => hs', fun _ => ⟨rfl, hs'⟩⟩
  · obtain ⟨hok, hl⟩ := calm_step (A := A) hi rfl rfl h
    exact ⟨hok, hl, hc, by rintro ⟨⟩⟩

theorem dispatch_owner {x : Choice} {site : DispatchSite} {h : HostId} {rr : Nat} {r : Except Exn Int}
    (he : exec t (.handleRequest site k h rr) x s = some (r, s')) : s'.owner = s.owner := by
  rcases exec_handleRequest he with ⟨b, n, -, rfl⟩ | ⟨b, e, -, rfl⟩ <;> rfl

/-- Null over a host that was lost. -/
theorem clear_step {x : Choice} {r : Except Exn Unit} {obj : Option HostId} (hi : LiveInv k s) (hin : Inside k t s)
    (hc : CameLost obj s) (hobj : item s.hostObj k = .ok obj)
    (h : exec t (.hostObjSet k none) x s = some (r, s')) :
    (live k A).StepOK t (.hostObjSet k none) s s' ∧ s'.owner = some t ∧ AllGone k s' ∧
      ∀ e ∈ s.events, e ∈ s'.events := by
  have hgone : AllGone k s := by
    intro h' hm
    rcases hin.2 h' hm with hg | hplace
    · exact hg
    · rw [hobj] at hplace; cases hplace
      exact (hc h' rfl).gone
  rcases exec_hostObjSet h with ⟨e, -, rfl, herr⟩ | ⟨v₀, -, hv₀, rfl⟩
  · rw [herr] at hobj; cases hobj
  · have hconn := connects_store (c := s.caller t) (v := none) hi.ledger hi.key hv₀
      (gone_of_allGone hi.key hgone hv₀) (by simp)
    obtain ⟨hok, ho⟩ := inside_step (A := A) (o := .hostObjSet k none) hin.1 hconn
    exact ⟨hok, ho, allGone_store hgone, hconn.grows.events⟩

end

/-- Restarts under the monitor, each needed. -/
def liveOutline (t : Nat) (k : Int) (rr : Nat) : (live k (restartsNeeded k)).Outline t (requestFlow k rr) where
  knows := liveKnows k t
  stable := stable_liveKnows
  step {p o next} hedge s x r s' hi hp hm he := by
    cases hedge with
    | entry =>
      obtain ⟨rfl, rfl⟩ := exec_hostObjGet he
      obtain ⟨hok, -⟩ := calm_step (A := restartsNeeded k) hi rfl rfl he
      refine ⟨hok, ?_⟩
      rcases item s'.hostObj k with e | _ | h
      · exact hp
      · exact ⟨hp, by rintro h ⟨⟩⟩
      · exact hp
    | first h =>
      have howner := dispatch_owner he
      obtain ⟨hok, hl⟩ := calm_step (A := restartsNeeded k) hi rfl howner he
      have hcalm := hl.calm hi howner hp
      refine ⟨hok, ?_⟩
      rcases exec_handleRequest he with ⟨b, n, rfl, -⟩ | ⟨b, e, rfl, rfl⟩
      · exact hcalm
      · simp only [RequestPoint.afterFirst]
        split
        · rename_i hlost
          refine ⟨hcalm, ?_⟩
          rintro h' ⟨⟩
          exact ⟨.dispatchRaised (s.caller t) .first k h e,
            List.mem_append_right _ (List.mem_append_right _ (List.mem_singleton.mpr rfl)), by simp [Event.loses, hlost]⟩
        · exact hcalm
    | enter obj =>
      obtain ⟨hok, hl, hcalm, hin⟩ := enter_step (A := restartsNeeded k) hi hp.1 he
      refine ⟨hok, ?_⟩
      cases r with
      | error e => exact hcalm
      | ok _ => exact ⟨hin rfl, fun h ho => (hp.2 h ho).mono hl.events⟩
    | tryobj obj =>
      obtain ⟨rfl, rfl⟩ := exec_hostObjGet he
      obtain ⟨hok, -⟩ := calm_step (A := restartsNeeded k) hi rfl rfl he
      refine ⟨hok, ?_⟩
      cases hv : item s'.hostObj k with
      | error e => exact hp.1.calm
      | ok v =>
        simp only [RequestPoint.afterTry]
        split
        · rename_i heq; exact ⟨hp.1, hp.2, heq ▸ hv⟩
        · cases obj with
          | some h => exact hp.1
          | none =>
            -- what stands in the place of the null the request came with is gone
            refine ⟨hp.1.1, fun h hmem => ?_⟩
            rcases hp.1.2 h hmem with hg | hplace
            · exact hg
            · exact hm k rfl h (slot_eq hplace)
    | release obj =>
      obtain ⟨hok, ho, hgone, hmono⟩ := clear_step (A := restartsNeeded k) hi hp.1 hp.2.1 hp.2.2 he
      refine ⟨hok, ?_⟩
      cases obj with
      | none => exact ⟨ho, hgone⟩
      | some h => exact ⟨ho, hgone.settled⟩
    | restarted =>
      obtain ⟨rfl, rfl⟩ := exec_hostObjGet he
      obtain ⟨hok, -⟩ := calm_step (A := restartsNeeded k) hi rfl rfl he
      refine ⟨hok, ?_⟩
      rcases item s'.hostObj k with e | _ | h
      · exact hp.calm
      · exact hp
      · exact hp
    | fail =>
      obtain ⟨hok, hcalm⟩ := exit_step (A := restartsNeeded k) hi (Inside.calm hp) he
      exact ⟨hok, by cases r <;> exact hcalm⟩
    | leave h =>
      obtain ⟨hok, hcalm⟩ := exit_step (A := restartsNeeded k) hi (Inside.calm hp) he
      exact ⟨hok, by cases r <;> exact hcalm⟩
    | «catch» => exact exit_step hi hp he
    | second h =>
      have howner := dispatch_owner he
      obtain ⟨hok, hl⟩ := calm_step (A := restartsNeeded k) hi rfl howner he
      exact ⟨hok, hl.calm hi howner hp⟩
  silent h _ _ hp := by
    cases h with
    | fell_done obj => exact hp.1
    | left_done => exact hp
    | left_broken => exact hp

theorem handleHostRequest_live (t : Nat) (k : Int) (rr : Nat) :
    (live k (restartsNeeded k)).Triple t (Calm k t) (handleHostRequest k rr) fun _ => Calm k t := by
  refine handleHostRequest_outline (liveOutline t k rr) logBlind_live ?_
  refine (connectHost_outline (liveConnect _ t k) logBlind_live).weaken fun r s _ hs => ?_
  rcases r with e | _ | _
  · exact Inside.calm hs
  · exact hs
  · exact hs

/-- The object a finalizer compares with is its own, lost host. -/
def finalizeKnows (k : Int) (t : Nat) (h : HostId) : FinalizePoint → Factory → Prop
  | .start, s => Calm k t s ∧ CameLost (some h) s
  | .held, s => Inside k t s ∧ CameLost (some h) s
  | .read v, s => Inside k t s ∧ CameLost (some h) s ∧ item s.hostObj k = .ok v
  | .found, s => Inside k t s ∧ CameLost (some h) s ∧ item s.hostObj k = .ok (some h)
  | .leaving, s => Inside k t s
  | .done, s => Calm k t s

def liveFinalize (A : Assumption Op Call Choice Factory) (t : Nat) (k : Int) (h : HostId) :
    (live k A).Outline t (finalizeFlow k h) where
  knows := finalizeKnows k t h
  stable p := by
    cases p with
    | start => exact stable_calm.and (stable_cameLost _)
    | held => exact stable_inside.and (stable_cameLost _)
    | leaving => exact stable_inside
    | done => exact stable_calm
    | read v =>
      intro s s' hi hi' hp hr
      obtain ⟨-, hl, -⟩ := hr.mine hp.1.1
      exact ⟨stable_inside s s' hi hi' hp.1 hr, stable_cameLost _ s s' hi hi' hp.2.1 hr, hl.obj _ hp.2.2⟩
    | found =>
      intro s s' hi hi' hp hr
      obtain ⟨-, hl, -⟩ := hr.mine hp.1.1
      exact ⟨stable_inside s s' hi hi' hp.1 hr, stable_cameLost _ s s' hi hi' hp.2.1 hr, hl.obj _ hp.2.2⟩
  step {p o next} hedge s x r s' hi hp _ he := by
    cases hedge with
    | enter =>
      obtain ⟨hok, hl, hcalm, hin⟩ := enter_step (A := A) hi hp.1 he
      refine ⟨hok, ?_⟩
      cases r with
      | error e => exact hcalm
      | ok _ => exact ⟨hin rfl, fun h ho => (hp.2 h ho).mono hl.events⟩
    | read =>
      obtain ⟨rfl, rfl⟩ := exec_hostObjGet he
      obtain ⟨hok, -⟩ := calm_step (A := A) hi rfl rfl he
      refine ⟨hok, ?_⟩
      cases hv : item s'.hostObj k with
      | error e => exact hp.1.calm
      | ok v => exact ⟨hp.1, hp.2, hv⟩
    | equals v =>
      obtain ⟨rfl, hr⟩ := exec_equals he
      obtain ⟨hok, -⟩ := calm_step (A := A) hi rfl rfl he
      refine ⟨hok, ?_⟩
      rcases hr with rfl | ⟨e, rfl⟩
      · by_cases heq : v = some h
        · rw [decide_eq_true heq]; exact ⟨hp.1, hp.2.1, heq ▸ hp.2.2⟩
        · rw [decide_eq_false heq]; exact hp.1
      · exact hp.1.calm
    | clear =>
      obtain ⟨hok, ho, hgone, -⟩ := clear_step (A := A) hi hp.1 hp.2.1 hp.2.2 he
      exact ⟨hok, ho, hgone.settled⟩
    | leave => exact exit_step hi (Inside.calm hp) he
  silent h := h.elim

/-! ## Runs -/

def liveCalls (k : Int) : (live k (restartsNeeded k)).Calls factoryTasks where
  idle := Calm k
  stable _ := stable_calm
  starts t c s hi hidle hc := by
    have hleaves : LeavesKey k s (enter t c s) := leavesKey_enter
    have howner : (enter t c s).owner = s.owner := by cases c <;> rfl
    have hconn : ∀ e ∈ (enter t c s).events, e.connects ≠ none → e ∈ s.events := by
      intro e hm hne
      cases c with
      | hostFinalized k' h =>
        rcases List.mem_append.mp hm with hm | hm
        · exact hm
        · cases List.mem_singleton.mp hm; exact absurd rfl hne
      | _ => exact hm
    have hi' : LiveInv k (enter t c s) :=
      ⟨hi.ledger.enter, hleaves.inv hi.key, fun ho => hleaves.settled hi.key (hi.settled (howner ▸ ho))⟩
    have hcalm : Calm k t (enter t c s) := hleaves.calm hi howner hidle
    refine ⟨hi', fun t' _ => ⟨hleaves.toGrows, fun ho => ⟨howner.trans ho, hleaves, hconn⟩, fun ho => howner ▸ ho⟩, ?_⟩
    cases c with
    | handleHostRequest k' rr =>
      obtain rfl : k' = k := of_decide_eq_true hc
      exact handleHostRequest_live t k' rr _ hi' hcalm
    | hostFinalized k' h =>
      obtain rfl : k' = k := of_decide_eq_true hc
      have hlost : CameLost (some h) (enter t (.hostFinalized k' h) s) := by
        rintro h' ⟨⟩
        exact ⟨.finalized k' h, List.mem_append_right _ (List.mem_singleton.mpr rfl), by simp [Event.loses]⟩
      have hfin : (live k' (restartsNeeded k')).Triple t (fun s => Calm k' t s ∧ CameLost (some h) s)
          (body (.hostFinalized k' h)) fun _ => Calm k' t :=
        .bind (R := fun _ => Calm k' t) ((hostFinalized_outline (liveFinalize _ t k' h)).weaken fun r _ _ hs => by
          cases r <;> exact hs) fun _ => .pure stable_calm fun _ _ hs => hs
      exact hfin _ hi' ⟨hcalm, hlost⟩
    | createHost v p svr => cases hc
    | destroy => cases hc

theorem ServiceRun.liveInv_start (R : ServiceRun k) : LiveInv k R.start := by
  obtain ⟨us, ds, n, hu, -, hl, hi, -⟩ := R.mounted.keys
  obtain ⟨v, hv⟩ := R.key
  obtain ⟨xs, hxs, h0, hget⟩ := item_eq_ok.mp hv
  obtain ⟨l, hobj, hlen⟩ := hl.obj
  rw [hobj] at hxs
  cases hxs
  have hlt := (List.getElem?_eq_some_iff.mp hget).1
  obtain ⟨hkey, hset⟩ := hi.old k h0 (by omega)
  exact ⟨hi.ledger, hkey, fun _ => hset⟩

/-- At most one host made for the key is not gone. -/
theorem made_le_gone {s : Factory} (hi : KeyInv k s) (hl : ∀ h ∈ hostsOf s k, Gone s h → Lost s h) :
    (hostsOf s k).length ≤ (hostsLost s k).length + 1 := by
  have hsplit : (hostsOf s k).length =
      (hostsLost s k).length + ((hostsOf s k).filter fun h => !decide (Lost s h)).length := by
    rw [hostsLost, ← List.length_eq_length_filter_add]
  have hlive : ((hostsOf s k).filter fun h => !decide (Lost s h)).length ≤ 1 := by
    have hnodup := hi.nodup.filter fun h => !decide (Lost s h)
    rw [← List.toFinset_card_of_nodup hnodup, Finset.card_le_one]
    intro a ha b hb
    simp only [List.mem_toFinset, List.mem_filter, Bool.not_eq_eq_eq_not, Bool.not_true, decide_eq_false_iff_not] at ha hb
    exact hi.live a ha.1 b hb.1 (fun hg => ha.2 (hl a ha.1 hg)) fun hg => hb.2 (hl b hb.1 hg)
  omega

/-- `Configure` raised, of all exceptions, only those that mean the host is lost. -/
def ConfigureOnlyLoses (s : Factory) : Prop := ∀ k h e, .configureRaised k h e ∈ s.events → e.hostLost = true

/-- In every run whose restarts are needed, a configured host leaves its place
only when it was lost; and if `Configure` raised nothing else, no more hosts
are made than were lost, and one. -/
theorem live_host_kept (R : ServiceRun k) (hm : Meets exec factoryTasks (restartsNeeded k) (.quiet R.start) R.actions) :
    R.KeepsLive ∧ (ConfigureOnlyLoses R.last.shared → R.OneMore) := by
  have hinit : (liveCalls k).Inv (.quiet R.start) := by
    refine (liveCalls k).inv_quiet R.liveInv_start fun t ho => ?_
    obtain ⟨us, ds, n, -, -, -, hi, -⟩ := R.mounted.keys
    rw [hi.out] at ho; cases ho
  constructor
  · refine (liveCalls k).run_along (fun c a c' hc ha hg => ?_) hinit hm
    cases a with
    | start t call =>
      simp only [act] at ha
      split at ha
      · cases ha; exact leavesKey_enter.slotKept
      · cases ha
    | step t x =>
      simp only [act, Spec.Good] at ha hg
      split at ha
      · rename_i o rest hpool
        rw [hpool] at hg; exact hg
      · cases ha
    | finish t =>
      simp only [act] at ha
      split at ha <;> cases ha <;> exact (LeavesKey.refl k _).slotKept
  · intro honly
    have hinv := ((liveCalls k).run_inv hinit hm R.ran).inv
    refine made_le_gone hinv.key fun h _ hg => ?_
    obtain ⟨e, hmem, he | he⟩ := hg
    · exact ⟨e, hmem, he⟩
    · cases e with
      | configureRaised k' h' e =>
        simp only [Event.drops, decide_eq_true_eq] at he
        exact ⟨_, hmem, by simp [Event.loses, he, honly k' h' e hmem]⟩
      | _ => cases he

/-! ## Two requests for a key without a host -/

/-- One host, key 0, made by a single call of `CreateHost`. -/
def oneHost : Except Exn Int × Factory :=
  ((createHost (wlit "/app") (wlit "C:/app") 0).solo exec 0 (List.replicate 12 .ok)
    (enter 0 (.createHost (wlit "/app") (wlit "C:/app") 0) newFactory)).get (by decide +kernel)

theorem mounted_oneHost : Mounted oneHost.2 :=
  .create .new ⟨List.replicate 12 .ok, (Option.some_get (by decide +kernel)).symm⟩

theorem key_oneHost : ∃ v, item oneHost.2.hostObj 0 = .ok v := ⟨some 0, by decide +kernel⟩

/-- The host is finalized in thread 1; the request of thread 2 finds null and
is about to take the monitor. -/
def foundNullActions : List FAction :=
  (.start 1 (.hostFinalized 0 0) :: List.replicate 5 (.step 1 .ok) : List FAction) ++
  ([.finish 1, .start 2 (.handleHostRequest 0 7)] : List FAction) ++ (List.replicate 5 (.step 2 .ok) : List FAction)

/-- It restarts the host, makes it and dispatches to it. -/
def restartRun : ServiceRun 0 where
  start := oneHost.2
  mounted := mounted_oneHost
  key := key_oneHost
  actions := foundNullActions ++ List.replicate 12 (.step 2 .ok) ++ [.step 2 (.status true 0), .finish 2]
  last := (run exec factoryTasks (.quiet oneHost.2) (foundNullActions ++ List.replicate 12 (.step 2 .ok) ++
    [.step 2 (.status true 0), .finish 2])).get (by decide +kernel)
  ran := by rw [Option.some_get]

theorem live_host_kept_restartRun :
    restartRun.KeepsLive ∧ (ConfigureOnlyLoses restartRun.last.shared → restartRun.OneMore) :=
  live_host_kept restartRun (by decide +kernel)

/-- Thread 3 has found null as well, and comes to the monitor after thread 2. -/
def doubledActions : List FAction :=
  foundNullActions ++ (.start 3 (.handleHostRequest 0 8) :: List.replicate 5 (.step 3 .ok) : List FAction) ++
  (List.replicate 12 (.step 2 .ok) : List FAction) ++ (List.replicate 6 (.step 3 .ok) : List FAction)

def doubledRun : ServiceRun 0 where
  start := oneHost.2
  mounted := mounted_oneHost
  key := key_oneHost
  actions := doubledActions
  last := (run exec factoryTasks (.quiet oneHost.2) doubledActions).get (by decide +kernel)
  ran := by rw [Option.some_get]

theorem live_host_replaced :
    ¬ ∀ (k : Int) (R : ServiceRun k), Meets exec factoryTasks (requestsFor k) (.quiet R.start) R.actions →
      R.KeepsLive ∧ R.OneMore := by
  intro h
  have hreplaced : ¬ doubledRun.KeepsLive := by decide +kernel
  exact hreplaced (h 0 doubledRun (by decide +kernel)).1

end ModAspNet.L4.HostFactory
