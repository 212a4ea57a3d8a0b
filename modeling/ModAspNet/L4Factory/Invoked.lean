import ModAspNet.Core.Follow
import ModAspNet.L4Factory.Isolation

/-!
# Hosts and the keys they were made for

A request takes its host from the entry of its key, where only hosts made for
that key are put. Which of the two objects it goes on with, after a restart,
does not matter for that.

* `invokedOutline`: at every point of a request the object it goes on with was
  made for its key.
* `invoked_made`: in every run, from any state of the factory that accounts for
  its hosts, a request is dispatched to hosts made for its key.
* `ServedInv.madeRight`: in every run of the module, the host was made with the
  paths of the key.
* `prepared_create`: `CreateHost` leaves the factory in such a state, ready for
  requests for the key it returned.
-/
namespace ModAspNet.L4.HostFactory

open ModAspNet.L1.Managed
open ModAspNet.Core

/-! ## In every run -/

/-- A request goes to a host made for its key; other operations are allowed. -/
def InvokesMade (_ : Nat) (o : Op) (s _ : Factory) : Prop :=
  match o with
  | .handleRequest _ k h _ => .created k h ∈ s.events
  | o => Allowed s o

def madeSpec (A : Assumption Op Call Choice Factory) : Spec exec A := (hostsSpec A).demanding InvokesMade

section
variable {A : Assumption Op Call Choice Factory} {t : Nat} {k : Int}

theorem allowed_invokesMade (t : Nat) (o : Op) (s s' : Factory) (hi : HostsInv s) (ha : Allowed s o) :
    InvokesMade t o s s' := by
  cases o with
  | handleRequest site k h rr =>
    obtain ⟨uri, dir, hm, -, -⟩ := ha
    exact (hi.configured k h uri dir hm).1
  | _ => exact ha

/-- One operation. -/
theorem made_step {o : Op} {x : Choice} {s s' : Factory} {r : Except Exn o.Ans} (hi : HostsInv s)
    (ha : InvokesMade t o s s') (he : exec t o x s = some (r, s')) :
    (madeSpec A).StepOK t o s s' ∧ Grows s s' := by
  cases o with
  | handleRequest site k h rr =>
    obtain ⟨b, raised, rfl⟩ : ∃ b raised, s' = s.note (dispatchEvents (s.caller t) site k h b raised) := by
      rcases exec_handleRequest he with ⟨b, n, -, rfl⟩ | ⟨b, e, -, rfl⟩
      · exact ⟨b, none, by simp [dispatchEvents]⟩
      · exact ⟨b, some e, by simp [dispatchEvents]⟩
    obtain ⟨hi', hg⟩ : HostsInv (s.note (dispatchEvents (s.caller t) site k h b raised)) ∧
        Grows s (s.note (dispatchEvents (s.caller t) site k h b raised)) :=
      hi.plain rfl isPlain_dispatchEvents rfl rfl rfl hi.held
    exact ⟨⟨hi', fun _ _ => hg, ha⟩, hg⟩
  | _ =>
    obtain ⟨hi', hg⟩ : HostsInv s' ∧ Grows s s' := by
      refine exec_keeps hi ?_ he
      exact ha
    exact ⟨⟨hi', fun _ _ => hg, ha⟩, hg⟩

theorem logBlind_made : LogBlind (madeSpec A) where
  inv _ _ hi := ⟨hi.fresh, hi.one_key, hi.held, hi.configured⟩
  rely _ _ _ := ⟨fun _ h => h, fun _ _ h => h, fun _ _ h => h⟩
  good _ o _ _ ho := by cases o <;> trivial

/-- The object a request goes on with, if any, was made for its key. -/
def madeFor (k : Int) : RequestPoint → Factory → Prop
  | .came h, s => .created k h ∈ s.events
  | .fell obj, s => ∀ h, obj = some h → .created k h ∈ s.events
  | .held obj, s => ∀ h, obj = some h → .created k h ∈ s.events
  | .same obj, s => ∀ h, obj = some h → .created k h ∈ s.events
  | .chosen h, s => .created k h ∈ s.events
  | .onward h, s => .created k h ∈ s.events
  | _, _ => True

theorem lasting_madeFor (k : Int) : ∀ p, Lasting (madeFor k p)
  | .came _ | .chosen _ | .onward _ => lasting_event _
  | .fell _ | .held _ | .same _ => fun _ _ hg hp h ho => hg.events _ (hp h ho)
  | .start | .connecting | .connected | .unconnected | .left | .broken | .done => .const True

theorem madeFor_afterRelease {obj : Option HostId} {s : Factory}
    (h : ∀ host, obj = some host → .created k host ∈ s.events) : madeFor k (.afterRelease obj) s := by
  cases obj with
  | none => trivial
  | some host => exact h host rfl

def invokedOutline (A : Assumption Op Call Choice Factory) (t : Nat) (k : Int) (rr : Nat) :
    (madeSpec A).Outline t (requestFlow k rr) where
  knows := madeFor k
  stable p := fun s s' _ _ hp hg => lasting_madeFor k p s s' hg hp
  step {p o next} hedge s x r s' hi hp _ he := by
    have ha : InvokesMade t o s s' := by
      cases hedge with
      | first h => exact hp
      | second h => exact hp
      | _ => trivial
    obtain ⟨hok, hg⟩ := made_step (A := A) hi ha he
    refine ⟨hok, ?_⟩
    have hp' := lasting_madeFor k p s s' hg hp
    cases hedge with
    | entry =>
      obtain ⟨rfl, rfl⟩ := exec_hostObjGet he
      rcases hr : item s'.hostObj k with e | _ | h
      · trivial
      · exact nofun
      · exact hi.held k h hr
    | first h =>
      rcases r with e | n
      · simp only [RequestPoint.afterFirst]
        split
        · rintro h' ⟨⟩
          exact hp'
        · trivial
      · trivial
    | enter obj =>
      cases r with
      | ok u => exact hp'
      | error e => trivial
    | tryobj obj =>
      rcases r with e | v
      · trivial
      · simp only [RequestPoint.afterTry]
        split
        · exact hp'
        · exact madeFor_afterRelease hp'
    | release obj => exact madeFor_afterRelease hp'
    | restarted =>
      obtain ⟨rfl, rfl⟩ := exec_hostObjGet he
      rcases hr : item s'.hostObj k with e | _ | h
      · trivial
      · trivial
      · exact hi.held k h hr
    | fail => cases r <;> trivial
    | leave h =>
      cases r with
      | ok u => exact hp'
      | error e => trivial
    | «catch» => trivial
    | second h => trivial
  silent h _ _ _ := by cases h <;> trivial

/-- A program that keeps what `hostsSpec` says. -/
theorem made_of_hosts {α : Type} {p : FProg α} (h : (hostsSpec A).Triple t (fun _ => True) p fun _ _ => True) :
    (madeSpec A).Triple t (fun _ => True) p fun _ _ => True :=
  h.relax allowed_invokesMade

theorem handleHostRequest_made (rr : Nat) :
    (madeSpec A).Triple t (fun _ => True) (handleHostRequest k rr) fun _ _ => True := by
  refine handleHostRequest_outline (invokedOutline A t k rr) logBlind_made ?_
  refine (made_of_hosts (connectHost_keeps t k)).weaken fun r _ _ _ => ?_
  rcases r with e | _ | _ <;> trivial

end

def madeCalls : (madeSpec serving).Calls factoryTasks where
  idle _ _ := True
  stable _ := .const True
  starts t c s hi _ hc := by
    obtain ⟨hi', hg⟩ := enter_keeps (t := t) (c := c) hi
    refine ⟨hi', fun _ _ => hg, ?_⟩
    cases c with
    | handleHostRequest k rr => exact handleHostRequest_made rr _ hi' trivial
    | hostFinalized k h =>
      exact (Spec.Triple.seq (made_of_hosts (hostFinalized_keeps k h)) (fun _ => .pure (.const True) fun _ _ _ => trivial)
        fun _ _ _ _ => trivial) _ hi' trivial
    | createHost v p svr => exact made_of_hosts (createHost_keeps v p svr) _ hi' trivial
    | destroy => exact absurd rfl hc

/-- From a state in which the hosts are accounted for, and without `Destroy`. -/
theorem invoked_made {s : Factory} {as : List FAction} {c : FConfig} (hi : HostsInv s)
    (hm : Meets exec factoryTasks serving (.quiet s) as) (hr : run exec factoryTasks (.quiet s) as = some c) :
    HostsInv c.shared ∧ ∀ t site k h rr, nextOp c t = some (.handleRequest site k h rr) → .created k h ∈ c.shared.events := by
  have hrun := madeCalls.run_inv (madeCalls.inv_quiet hi fun _ => trivial) hm hr
  refine ⟨hrun.inv, fun t site k h rr ht => ?_⟩
  simp only [nextOp] at ht
  split at ht
  · rename_i o rest hpool
    cases ht
    exact ((hrun.safe t _ hpool) _ hrun.inv (.refl _) (.status false 0) _ _ rfl trivial).1.good
  · cases ht

/-- Where the factory is called as the module calls it, nobody calls `Destroy`. -/
theorem isolating_serving {m : Nat} (c : FConfig) (a : FAction) (h : Permits (isolating m) c a) : Permits serving c a := by
  cases a with
  | start t call =>
    intro hcall
    rw [hcall] at h
    exact h
  | step t x =>
    simp only [Permits]
    split <;> trivial
  | finish t => trivial

/-- A host is made for the paths of its key. -/
theorem ServedInv.makes {m : Nat} {c : FConfig} {κ : Calling Call Factory} {keys : List Int} (h : ServedInv m c κ keys)
    {t : Nat} {k : Int} {uri dir : WString} (ht : nextOp c t = some (.createApplicationHost k uri dir)) :
    item c.shared.hostURI k = .ok uri ∧ item c.shared.hostDir k = .ok dir := by
  simp only [nextOp] at ht
  split at ht
  · rename_i o rest hpool
    cases ht
    have hgood := ((h.each.base.safe t _ hpool) _ h.each.base.inv (.refl m t _) .null _ _ rfl (by intro h; cases h)).1.good
    exact ⟨hgood.1, hgood.2.1⟩
  · cases ht

/-- A request is dispatched under its own key. -/
theorem ServedInv.ownKey {m : Nat} {c : FConfig} {κ : Calling Call Factory} {keys : List Int} (h : ServedInv m c κ keys)
    {t : Nat} {k k' : Int} {rr rr' : Nat} {s : Factory} {site : DispatchSite} {obj : HostId}
    (hκ : κ t = some (.handleHostRequest k rr, s)) (ht : nextOp c t = some (.handleRequest site k' obj rr')) : k' = k := by
  simp only [nextOp] at ht
  split at ht
  · rename_i o rest hpool
    cases ht
    obtain ⟨call, s', hκ', hperf⟩ := h.performing t _ hpool
    cases hκ.symm.trans hκ'
    exact of_decide_eq_true hperf.1
  · cases ht

/-! ## The paths a host was made with -/

/-- Every host is on record with the paths it was made with, and those are the
paths of its key. -/
structure MadeRight (s : Factory) : Prop where
  recorded : ∀ k h, .created k h ∈ s.events → ∃ uri dir, ⟨k, h, uri, dir⟩ ∈ s.made
  paths : ∀ x ∈ s.made, item s.hostURI x.key = .ok x.uri ∧ item s.hostDir x.key = .ok x.dir

/-- Only `CreateApplicationHost` adds to the record. -/
theorem exec_made_eq {t : Nat} {o : Op} {x : Choice} {s s' : Factory} {r : Except Exn o.Ans}
    (ho : ∀ k uri dir, o ≠ .createApplicationHost k uri dir) (h : exec t o x s = some (r, s')) : s'.made = s.made := by
  cases exec_did h with
  | created => exact absurd rfl (ho _ _ _)
  | _ => rfl

theorem MadeRight.newHost {s : Factory} (h : MadeRight s) {k : Int} {uri dir : WString}
    (huri : item s.hostURI k = .ok uri) (hdir : item s.hostDir k = .ok dir) : MadeRight (s.newHost k uri dir) := by
  refine ⟨fun k' h' hm => ?_, fun x hx => ?_⟩
  · rcases List.mem_append.mp hm with hm | hm
    · obtain ⟨u, d, hx⟩ := h.recorded k' h' hm
      exact ⟨u, d, List.mem_append_left _ hx⟩
    · cases List.mem_singleton.mp hm
      exact ⟨uri, dir, List.mem_append_right _ (List.mem_singleton.mpr rfl)⟩
  · rcases List.mem_append.mp hx with hx | hx
    · exact h.paths x hx
    · cases List.mem_singleton.mp hx
      exact ⟨huri, hdir⟩

/-- An operation that does as the module's calls may. -/
theorem MadeRight.step {m t : Nat} {o : Op} {x : Choice} {s s' : Factory} {r : Except Exn o.Ans} (h : MadeRight s)
    (hok : (isolation m).StepOK t o s s') (he : exec t o x s = some (r, s')) : MadeRight s' := by
  by_cases hcreate : ∃ k uri dir, o = .createApplicationHost k uri dir
  · obtain ⟨k, uri, dir, rfl⟩ := hcreate
    rcases exec_createApplicationHost he with ⟨-, rfl⟩ | ⟨rfl, -⟩
    · exact h.newHost hok.good.1 hok.good.2.1
    · exact h
  · have hg : Grows s s' := (hok.guar (t + 1) (Nat.succ_ne_self t)).toGrows
    have hmade : s'.made = s.made := exec_made_eq (fun k uri dir ho => hcreate ⟨k, uri, dir, ho⟩) he
    refine ⟨fun k host hm => ?_, fun x hx => ?_⟩
    · rw [hmade]
      exact h.recorded k host ((exec_made he hm).resolve_right fun ⟨uri, dir, ho, _⟩ => hcreate ⟨k, uri, dir, ho⟩)
    · rw [hmade] at hx
      obtain ⟨huri, hdir⟩ := h.paths x hx
      exact ⟨hg.uri _ _ huri, hg.dir _ _ hdir⟩

theorem MadeRight.enter {s : Factory} (h : MadeRight s) (t : Nat) (call : Call) : MadeRight (enter t call s) := by
  refine ⟨fun k host hm => ?_, ?_⟩
  · have hold : .created k host ∈ s.events := by
      cases call with
      | hostFinalized k' h' => simpa [HostFactory.enter, Factory.note] using hm
      | _ => exact hm
    obtain ⟨uri, dir, hx⟩ := h.recorded k host hold
    exact ⟨uri, dir, by cases call <;> exact hx⟩
  · cases call <;> exact h.paths

theorem ServedInv.madeRight {m : Nat} : ∀ {as : List FAction} {c c' : FConfig} {κ : Calling Call Factory}
    {keys : List Int}, ServedInv m c κ keys → Served m c κ keys as → run exec factoryTasks c as = some c' →
    MadeRight c.shared → MadeRight c'.shared
  | [], _, _, _, _, _, _, he, hr => by cases he; exact hr
  | a :: as, c, c', κ, keys, h, hs, he, hr => by
    obtain ⟨c₁, ha, he⟩ := act_of_run_cons he
    obtain ⟨hsa, hs⟩ := hs
    rw [ha] at hs
    refine (h.next hsa ha).madeRight hs he ?_
    have hpermits := h.permits hsa
    cases act_acts ha with
    | @start t call hnone => exact hr.enter t call
    | @step t x o rest r s hpool hx =>
      simp only [Permits, hpool] at hpermits
      exact hr.step (h.each.base.safe t _ hpool c.shared h.each.base.inv (.refl m t _) x r s hx hpermits).1 hx
    | finish hpool => exact hr

/-! ## What mounting leaves -/

/-- No call is under way, the lists are of one length, and the hosts are
accounted for, with their paths. -/
structure Prepared (s : Factory) : Prop where
  isolated : IsolationInv s
  lengths : SameLengths s
  hosts : HostsInv s
  made : MadeRight s

theorem prepared_new : Prepared newFactory where
  isolated := (servedInv_new 0).each.base.inv
  lengths := ⟨[], [], ⟨rfl, rfl, ⟨[], rfl, rfl⟩, ⟨[], rfl, rfl⟩⟩, rfl⟩
  hosts := by constructor <;> simp [newFactory, item_eq_ok]
  made := ⟨fun _ _ hm => absurd hm List.not_mem_nil, fun _ hx => absurd hx List.not_mem_nil⟩

/-- One call of `CreateHost`, however it ends. -/
theorem prepared_create {v p : WString} {svr : Nat} {s s' : Factory} {r : Except Exn Int} (h : Prepared s)
    (hrun : CreateHostRuns v p svr s r s') :
    Prepared s' ∧ Grows s s' ∧ ∀ k, r = .ok k → k ≠ -1 → connected s' k = true := by
  obtain ⟨choices, hrun⟩ := hrun
  obtain ⟨us, ds, hl, hlen⟩ := h.lengths
  have hstill : Still 0 s (enter 0 (.createHost v p svr) s) := still_enter
  have hisolated : ((isolation 0).also (callGood (.createHost v p svr) s)).Triple 0
      (mountOwns 0 0 us ds v p .start) (createHost v p svr)
      fun r s' => Balanced 0 0 s' ∧ callPost (.createHost v p svr) s 0 r s' :=
    createHost_isolated hlen fun _ => hl.entries
  have hmay : Spec.SoloMay (isolating 0) exec 0 (createHost v p svr) choices (enter 0 (.createHost v p svr) s) :=
    Spec.soloMay_of (fun _ _ _ _ => rfl) _ _ _
  have hsafe := hisolated _ (hstill.inv h.isolated) fun _ => hstill.lists hl
  obtain ⟨hi', hbalanced, hpost⟩ := Spec.solo_inv (hstill.inv h.isolated) hsafe hmay hrun
  obtain ⟨hhosts', -⟩ := Spec.solo_inv (enter_keeps h.hosts).1
    (createHost_keeps (A := .anything) v p svr _ (enter_keeps h.hosts).1 trivial) (Spec.soloMay_anything _ _ _) hrun
  obtain ⟨hgrows, hmade⟩ := Spec.solo_keeps (S := isolation 0) (F := fun s₁ => Grows s s₁ ∧ MadeRight s₁)
    (fun o x s₁ r s₂ hok hx hf => ⟨hf.1.trans (hok.guar 1 Nat.one_ne_zero).toGrows, hf.2.step hok hx⟩)
    (hstill.inv h.isolated) hsafe.of_also hmay hrun ⟨(enter_keeps h.hosts).2, h.made.enter 0 _⟩
  refine ⟨⟨hi', hbalanced rfl, hhosts', hmade⟩, hgrows, fun k hk hne => ?_⟩
  subst hk
  exact hpost hne

end ModAspNet.L4.HostFactory
