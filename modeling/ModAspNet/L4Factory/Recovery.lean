import ModAspNet.L4Factory.Monitor

/-!
# What a request does when its host is lost

After a dispatch that raised `RemotingException` or
`AppDomainUnloadedException` the restart section is to replace the lost host
and dispatch the request again; `STATUS.txt:51-52` has it that the module "may
not recover gracefully after a System.Web.Host is lost". Under the lock the
section compares `hostObj[HostKey]` with the object the request came with, and
then assigns `obj = tryobj`: the two are equal there, so `obj` stays the lost
host, it is not null, nothing is connected, and the second dispatch goes to the
same object again. Where `hostObj[HostKey]` was changed meanwhile, `obj` stays
what it was as well.

* `recoveryOutline`: the call goes on with the object it came with, if that is
  the one it lost.
* `handleHostRequest_excused`: it returns 500 without a second dispatch only where
  the restart raised.
* `recovery_exact`: in every run of the factory, requests that lost their host
  move to another one exactly when none of them is dispatched again.
-/
namespace ModAspNet.L4.HostFactory

open ModAspNet.L1.Managed
open ModAspNet.Core

/-! ## The property -/

/-- The first dispatch of call `c` to `h` raised one of the two exceptions. -/
def LostFirst (es : List Event) (c : Caller) (k : Int) (h : HostId) : Prop :=
  ∃ e : Exn, e.hostLost = true ∧ .dispatchRaised c .first k h e ∈ es

/-- `h'` was made after that, or another call put it into `hostObj[k]`. -/
def Replaced (es : List Event) (c : Caller) (k : Int) (h h' : HostId) : Prop :=
  (∃ e pre post, es = pre ++ .dispatchRaised c .first k h e :: post ∧ .created k h' ∈ post) ∨
  ∃ c', c' ≠ c ∧ .stored c' k (some h') ∈ es

/-- The second dispatch went to `h'` and had to. -/
structure Moves (es : List Event) (c : Caller) (k : Int) (h h' : HostId) : Prop where
  other : h' ≠ h
  /-- what `hostObj[k]` held at the end of the section -/
  slot : .sectionEnd c k (some h') ∈ es
  replaced : Replaced es c k h h'

/-- At its first dispatch the request lost its host `h`. -/
def LostHost (tr : List FDone) (k : Int) (rr : Nat) (h : HostId) : Prop :=
  ∃ e s, Exn.hostLost e = true ∧ (⟨.handleRequest .first k h rr, .error e, s⟩ : FDone) ∈ tr

/-- What a request that lost its host `h` can owe a 500 to, if not to `h`. -/
inductive Excused (tr : List FDone) (k : Int) (rr : Nat) (h : HostId) : Prop
  /-- an operation of the restart raised -/
  | raised {d} (hd : d ∈ tr) (hop : ∀ site k h rr, d.op ≠ .handleRequest site k h rr) (hraised : d.raised = true)
  /-- `CreateApplicationHost` returned null -/
  | unmade {uri dir s} (hd : (⟨.createApplicationHost k uri dir, .ok none, s⟩ : FDone) ∈ tr)
  /-- what `ConnectHost` stored was gone again -/
  | emptied {s} (hd : (⟨.hostObjGet k .restarted, .ok none, s⟩ : FDone) ∈ tr)
  /-- another host was asked -/
  | moved {h' r s} (hne : h' ≠ h) (hd : (⟨.handleRequest .second k h' rr, r, s⟩ : FDone) ∈ tr)

/-- Every request that lost its host and is dispatched again moves, and is not
answered 500 because the lost host fails again, nor because the restart is given
up though nothing failed in it. -/
structure Recovers (H : History) : Prop where
  moves : ∀ c k h, LostFirst H.events c k h → ∀ k' h', .dispatched c .second k' h' ∈ H.events →
    Moves H.events c k h h'
  answered : ∀ c k h, LostFirst H.events c k h → ∀ k' e, .dispatchRaised c .second k' h e ∉ H.events
  /-- at whatever point of the run the call has ended -/
  result : ∀ G : History, G.actions <+: H.actions → ∀ t k rr s₀ h,
    G.calling t = some (.handleHostRequest k rr, s₀) → G.last.pool t = some (.ended (.ok 500)) →
      LostHost (G.record t) k rr h → Excused (G.record t) k rr h

/-- No request that lost its host is dispatched again. -/
def NoRedispatch (es : List Event) : Prop :=
  ∀ c k h, LostFirst es c k h → ∀ k' h', .dispatched c .second k' h' ∉ es

/-! ## Operations other than a dispatch -/

def Op.isDispatch : Op → Bool
  | .handleRequest _ _ _ _ => true
  | _ => false

/-- The events of the dispatches of call `c`. -/
def Event.isDispatchOf (c : Caller) : Event → Bool
  | .dispatched c' _ _ _ => decide (c' = c)
  | .dispatchRaised c' _ _ _ _ => decide (c' = c)
  | _ => false

/-- The number of calls and the dispatches recorded are the same. -/
structure SameDispatches (s s' : Factory) : Prop where
  calls : s'.calls = s.calls
  mem : ∀ c e, e.isDispatchOf c = true → (e ∈ s'.events ↔ e ∈ s.events)

/-- Recording something else. -/
theorem sameDispatches_note {s s' : Factory} {es : List Event} (hc : s'.calls = s.calls)
    (he : s'.events = s.events ++ es) (h : ∀ c, ∀ e ∈ es, e.isDispatchOf c = false) : SameDispatches s s' := by
  refine ⟨hc, fun c e hd => ?_⟩
  rw [he, List.mem_append, or_iff_left]
  intro hm
  rw [h c e hm] at hd
  cases hd

theorem exec_other {t : Nat} {o : Op} {x : Choice} {s s' : Factory} {r : Except Exn o.Ans}
    (ho : o.isDispatch = false) (h : exec t o x s = some (r, s')) : SameDispatches s s' := by
  cases exec_did h with
  | dispatched b raised => cases ho
  | stored h => exact sameDispatches_note rfl rfl (by simp [Event.isDispatchOf])
  | created => exact sameDispatches_note rfl rfl (by simp [Event.isDispatchOf])
  | configured => exact sameDispatches_note rfl rfl (by simp [Event.isDispatchOf])
  | configureRaised e => exact sameDispatches_note rfl rfl (by simp [Event.isDispatchOf])
  | @exited section_end m h hm =>
    exact sameDispatches_note rfl rfl (by cases section_end <;> simp [sectionEnd, Event.isDispatchOf])
  | _ => exact ⟨rfl, fun _ _ _ => Iff.rfl⟩

theorem atom_other (o : Op) (h : o.isDispatch = false) : (atom o).Performs (Op.isDispatch · = false) :=
  Prog.Performs.perform h

theorem other_of_connect {k : Int} {α : Type} {p : FProg α} (h : p.Performs (Op.ofConnect k · = true)) :
    p.Performs (Op.isDispatch · = false) := by
  refine h.imp fun o ho => ?_
  cases o <;> simp [Op.ofConnect, Op.isDispatch] at ho ⊢

/-- `ConnectHost` dispatches nothing. -/
theorem connectHost_other (k : Int) : (connectHost k).Performs (Op.isDispatch · = false) :=
  other_of_connect (connectHost_performs k)

theorem hostFinalized_other (k : Int) (h : HostId) : (hostFinalized k h).Performs (Op.isDispatch · = false) := by
  refine (hostFinalized_performs k h).imp fun o ho => ?_
  cases o <;> simp [Op.ofFinalizer, Op.isDispatch] at ho ⊢

theorem createHost_other (v p : WString) (svr : Nat) : (createHost v p svr).Performs (Op.isDispatch · = false) := by
  refine .bind (fun n => .bind (fun _ => .bind (fun _ => .bind (fun _ => .bind (fun _ => .bind (fun b => ?_) ?_)
    ?_) ?_) ?_) ?_) ?_
  · cases b with
    | true => exact .pure n
    | false => exact .bind (fun _ => .pure (-1)) (other_of_connect (logMapping_performs n _ _ _))
  · exact connectHost_other n
  · exact atom_other .hostObjAdd rfl
  · exact atom_other (.hostDirAdd _) rfl
  · exact atom_other (.hostURIAdd _) rfl
  · exact atom_other (.hostSvrAdd _) rfl
  · exact atom_other .hostObjCount rfl

theorem destroy_other : destroy.Performs (Op.isDispatch · = false) := by
  refine destroy_performs.imp fun o ho => ?_
  cases o <;> first | rfl | cases ho

/-! ## The invariant -/

/-- Calls are numbered; a raised dispatch was made; and a request that lost a
host is dispatched again only to that host. -/
structure RedispatchInv (s : Factory) : Prop where
  numbered : ∀ c e, e.isDispatchOf c = true → e ∈ s.events → c.number ≤ s.calls c.thread
  made : ∀ c site k h e, .dispatchRaised c site k h e ∈ s.events → .dispatched c site k h ∈ s.events
  same : ∀ c k h, LostFirst s.events c k h → ∀ k' h', .dispatched c .second k' h' ∈ s.events → h' = h

/-- The dispatches of thread `t`'s call are its own. -/
def OwnDispatches (t : Nat) (s s' : Factory) : Prop :=
  s'.calls t = s.calls t ∧ ∀ e, e.isDispatchOf (s.caller t) = true → (e ∈ s'.events ↔ e ∈ s.events)

theorem OwnDispatches.caller {t : Nat} {s s' : Factory} (h : OwnDispatches t s s') : s'.caller t = s.caller t := by
  rw [Factory.caller, Factory.caller, h.1]

def recovery : Spec exec (.anything : Assumption Op Call Choice Factory) where
  inv := RedispatchInv
  rely := OwnDispatches
  good := fun _ _ _ _ => True
  refl := fun _ _ => ⟨rfl, fun _ _ => Iff.rfl⟩
  trans := fun t s s' s'' h h' => ⟨h'.1.trans h.1, fun e he =>
    (h'.2 e (by rw [h.caller]; exact he)).trans (h.2 e he)⟩

theorem SameDispatches.lostFirst {s s' : Factory} (h : SameDispatches s s') {c : Caller} {k : Int} {host : HostId} :
    LostFirst s'.events c k host ↔ LostFirst s.events c k host := by
  constructor <;> rintro ⟨e, hl, hm⟩ <;> refine ⟨e, hl, ?_⟩
  · exact (h.mem c _ (by simp [Event.isDispatchOf])).mp hm
  · exact (h.mem c _ (by simp [Event.isDispatchOf])).mpr hm

theorem SameDispatches.inv {s s' : Factory} (h : SameDispatches s s') (hi : RedispatchInv s) : RedispatchInv s' where
  numbered c e he hm := by rw [h.calls]; exact hi.numbered c e he ((h.mem c e he).mp hm)
  made c site k host e hm :=
    (h.mem c _ (by simp [Event.isDispatchOf])).mpr
      (hi.made c site k host e ((h.mem c _ (by simp [Event.isDispatchOf])).mp hm))
  same c k host hl k' h' hm :=
    hi.same c k host (h.lostFirst.mp hl) k' h' ((h.mem c _ (by simp [Event.isDispatchOf])).mp hm)

theorem SameDispatches.own {s s' : Factory} (h : SameDispatches s s') (t : Nat) : OwnDispatches t s s' :=
  ⟨by rw [h.calls], fun e he => h.mem _ e he⟩

/-- An operation without a dispatch keeps what is stable. -/
theorem other_step {t : Nat} {P : Factory → Prop} (hs : recovery.Stable t P) {o : Op} (ho : o.isDispatch = false)
    {s s' : Factory} {x : Choice} {r : Except Exn o.Ans} (hi : RedispatchInv s) (hP : P s)
    (he : exec t o x s = some (r, s')) : recovery.StepOK t o s s' ∧ P s' := by
  have hsame := exec_other ho he
  exact ⟨⟨hsame.inv hi, fun t' _ => hsame.own t', trivial⟩, hs s s' hi (hsame.inv hi) hP (hsame.own t)⟩

theorem triple_other {t : Nat} {P : Factory → Prop} (hs : recovery.Stable t P) {α : Type} {p : FProg α}
    (hp : p.Performs (Op.isDispatch · = false)) : recovery.Triple t P p fun _ => P :=
  .of_performs hs (fun _ ho _ _ _ _ hi hP _ he => other_step hs ho hi hP he) hp

theorem logBlind_recovery : LogBlind recovery where
  inv s _ hi := SameDispatches.inv (s := s) ⟨rfl, fun _ _ _ => Iff.rfl⟩ hi
  rely _ _ _ := ⟨rfl, fun _ _ => Iff.rfl⟩
  good _ _ _ _ _ := trivial

/-! ## What the call knows about its own dispatches -/

/-- The call was not dispatched yet. -/
def Fresh (t : Nat) (s : Factory) : Prop := ∀ e, e.isDispatchOf (s.caller t) = true → e ∉ s.events

/-- Only with `obj` may the first dispatch of the call have been lost. -/
def CameWith (t : Nat) (obj : Option HostId) (s : Factory) : Prop :=
  ∀ k h, LostFirst s.events (s.caller t) k h → obj = some h

/-- The call has not reached its second dispatch. -/
def NotAgain (t : Nat) (s : Factory) : Prop := ∀ k h, .dispatched (s.caller t) .second k h ∉ s.events

theorem stable_fresh (t : Nat) : recovery.Stable t (Fresh t) := by
  intro s s' _ _ hf hr e he hm
  rw [hr.caller] at he
  exact hf e he ((hr.2 e he).mp hm)

theorem stable_cameWith (t : Nat) (obj : Option HostId) : recovery.Stable t (CameWith t obj) := by
  rintro s s' _ _ hc hr k h ⟨e, hl, hm⟩
  rw [hr.caller] at hm
  exact hc k h ⟨e, hl, (hr.2 _ (by simp [Event.isDispatchOf])).mp hm⟩

theorem Fresh.cameWith {t : Nat} {s : Factory} (h : Fresh t s) (obj : Option HostId) : CameWith t obj s := by
  rintro k host ⟨e, -, hm⟩
  exact absurd hm (h _ (by simp [Event.isDispatchOf]))

theorem Fresh.notAgain {t : Nat} {s : Factory} (h : Fresh t s) : NotAgain t s :=
  fun k host => h _ (by simp [Event.isDispatchOf])

/-! ## The two dispatches -/

theorem exec_dispatch {t : Nat} {x : Choice} {s s' : Factory} {site : DispatchSite} {k : Int} {host : HostId} {rr : Nat}
    {r : Except Exn Int} (h : exec t (.handleRequest site k host rr) x s = some (r, s')) :
    ∃ b raised, s' = s.note (dispatchEvents (s.caller t) site k host b raised) := by
  rcases exec_handleRequest h with ⟨b, n, -, rfl⟩ | ⟨b, e, -, rfl⟩
  · exact ⟨b, none, by simp [dispatchEvents]⟩
  · exact ⟨b, some e, by simp [dispatchEvents]⟩

theorem mem_dispatchEvents {c c' : Caller} {site : DispatchSite} {k : Int} {h : HostId} {b : Bool} {raised : Option Exn}
    {e : Event} (he : e.isDispatchOf c' = true) : e ∈ dispatchEvents c site k h b raised ↔
      e = .dispatched c site k h ∨ ∃ x, raised = some x ∧ e = .dispatchRaised c site k h x := by
  cases b <;> cases raised <;> cases e <;> simp [Event.isDispatchOf, dispatchEvents, started] at he ⊢

section
variable {t : Nat} {s : Factory} {site : DispatchSite} {k : Int} {host : HostId} {b : Bool} {raised : Option Exn}

theorem mem_note_dispatch {c : Caller} {e : Event} (he : e.isDispatchOf c = true) :
    e ∈ (s.note (dispatchEvents (s.caller t) site k host b raised)).events ↔
      e ∈ s.events ∨ e = .dispatched (s.caller t) site k host ∨
        ∃ x, raised = some x ∧ e = .dispatchRaised (s.caller t) site k host x := by
  rw [Factory.note, List.mem_append, mem_dispatchEvents he]

/-- The events of a dispatch are those of its own call. -/
theorem own_dispatch {t' : Nat} (ht : t' ≠ t) :
    OwnDispatches t' s (s.note (dispatchEvents (s.caller t) site k host b raised)) := by
  refine ⟨rfl, fun e he => ?_⟩
  rw [mem_note_dispatch he, or_iff_left]
  have hne : s.caller t' ≠ s.caller t := fun h => ht (congrArg Caller.thread h)
  rintro (rfl | ⟨x, -, rfl⟩) <;>
    · simp only [Event.isDispatchOf, decide_eq_true_eq] at he
      exact hne he.symm

theorem lostFirst_dispatch {c : Caller} {k' : Int} {h : HostId} :
    LostFirst (s.note (dispatchEvents (s.caller t) site k host b raised)).events c k' h ↔
      LostFirst s.events c k' h ∨ c = s.caller t ∧ site = .first ∧ k' = k ∧ h = host ∧
        ∃ e, raised = some e ∧ e.hostLost = true := by
  constructor
  · rintro ⟨e, hl, hm⟩
    rcases (mem_note_dispatch (c := c) (by simp [Event.isDispatchOf])).mp hm with hm | hm | ⟨x, hx, hm⟩
    · exact .inl ⟨e, hl, hm⟩
    · cases hm
    · cases hm; exact .inr ⟨rfl, rfl, rfl, rfl, e, hx, hl⟩
  · rintro (⟨e, hl, hm⟩ | ⟨rfl, rfl, rfl, rfl, e, hx, hl⟩)
    · exact ⟨e, hl, (mem_note_dispatch (c := c) (by simp [Event.isDispatchOf])).mpr (.inl hm)⟩
    · exact ⟨e, hl, (mem_note_dispatch (c := s.caller t) (by simp [Event.isDispatchOf])).mpr (.inr (.inr ⟨e, hx, rfl⟩))⟩

/-- A dispatch keeps the invariant when it is the first of its call, or goes
where the call lost its host. -/
theorem inv_dispatch (hi : RedispatchInv s) (hfirst : site = .first → NotAgain t s)
    (hsecond : site = .second → CameWith t (some host) s) :
    RedispatchInv (s.note (dispatchEvents (s.caller t) site k host b raised)) := by
  constructor
  · intro c e he hm
    rcases (mem_note_dispatch he).mp hm with hm | rfl | ⟨x, -, rfl⟩
    · exact hi.numbered c e he hm
    all_goals
      simp only [Event.isDispatchOf, decide_eq_true_eq] at he
      subst he; exact le_refl _
  · intro c site' k' h e hm
    refine (mem_note_dispatch (c := c) (by simp [Event.isDispatchOf])).mpr ?_
    rcases (mem_note_dispatch (c := c) (by simp [Event.isDispatchOf])).mp hm with hm | hm | ⟨x, -, hm⟩
    · exact .inl (hi.made c site' k' h e hm)
    · cases hm
    · cases hm; exact .inr (.inl rfl)
  · intro c k' h hl k'' h' hm
    rcases (mem_note_dispatch (c := c) (by simp [Event.isDispatchOf])).mp hm with hm | hm | ⟨x, -, hm⟩
    · rcases lostFirst_dispatch.mp hl with hl | ⟨rfl, hf, -⟩
      · exact hi.same c k' h hl k'' h' hm
      · exact absurd hm (hfirst hf k'' h')
    · cases hm
      rcases lostFirst_dispatch.mp hl with hl | ⟨-, hf, -⟩
      · exact Option.some.inj (hsecond rfl k' h hl)
      · cases hf
    · cases hm

end

/-- The first dispatch of a call. -/
theorem first_step {t : Nat} {k : Int} {host : HostId} {rr : Nat} {x : Choice} {s s' : Factory} {r : Except Exn Int}
    (hi : RedispatchInv s) (hf : Fresh t s) (he : exec t (.handleRequest .first k host rr) x s = some (r, s')) :
    recovery.StepOK t (.handleRequest .first k host rr) s s' ∧ CameWith t (some host) s' := by
  obtain ⟨b, raised, rfl⟩ := exec_dispatch he
  refine ⟨⟨inv_dispatch hi (fun _ => hf.notAgain) (by simp), fun t' ht => own_dispatch ht, trivial⟩, fun k' h hl => ?_⟩
  rcases lostFirst_dispatch.mp hl with ⟨e', -, hm⟩ | ⟨-, -, -, rfl, -⟩
  · exact absurd hm (hf _ (by simp [Event.isDispatchOf, Factory.caller, Factory.note]))
  · rfl

/-- The second, to what the call came with. -/
theorem second_step {t : Nat} {k : Int} {host : HostId} {rr : Nat} {x : Choice} {s s' : Factory} {r : Except Exn Int}
    (hi : RedispatchInv s) (hc : CameWith t (some host) s)
    (he : exec t (.handleRequest .second k host rr) x s = some (r, s')) :
    recovery.StepOK t (.handleRequest .second k host rr) s s' := by
  obtain ⟨b, raised, rfl⟩ := exec_dispatch he
  exact ⟨inv_dispatch hi (by simp) (fun _ => hc), fun t' ht => own_dispatch ht, trivial⟩

/-! ## `HandleHostRequest` -/

/-- The call goes on with what it came with, if that is what it lost. -/
def recoveryKnows (t : Nat) : RequestPoint → Factory → Prop
  | .start => Fresh t
  | .came _ => Fresh t
  | .fell obj => CameWith t obj
  | .held obj => CameWith t obj
  | .same obj => CameWith t obj
  | .connecting => CameWith t none
  | .connected => CameWith t none
  | .chosen h => CameWith t (some h)
  | .onward h => CameWith t (some h)
  | _ => fun _ => True

theorem stable_recoveryKnows (t : Nat) (p : RequestPoint) : recovery.Stable t (recoveryKnows t p) := by
  cases p with
  | start => exact stable_fresh t
  | came h => exact stable_fresh t
  | fell obj => exact stable_cameWith t obj
  | held obj => exact stable_cameWith t obj
  | same obj => exact stable_cameWith t obj
  | connecting => exact stable_cameWith t none
  | connected => exact stable_cameWith t none
  | chosen h => exact stable_cameWith t (some h)
  | onward h => exact stable_cameWith t (some h)
  | _ => exact .const _

theorem CameWith.afterRelease {t : Nat} {obj : Option HostId} {s : Factory} (h : CameWith t obj s) :
    recoveryKnows t (.afterRelease obj) s := by
  cases obj <;> exact h

/-- Nothing was lost by a call that came with null: it may go on with any host. -/
theorem CameWith.of_none {t : Nat} {s : Factory} (h : CameWith t none s) (obj : Option HostId) : CameWith t obj s :=
  fun k host hl => by cases h k host hl

def recoveryOutline (t : Nat) (k : Int) (rr : Nat) : recovery.Outline t (requestFlow k rr) where
  knows := recoveryKnows t
  stable := stable_recoveryKnows t
  step {p o next} hedge s x r s' hi hp _ he := by
    have hother : ∀ {o : Op} {r : Except Exn o.Ans}, o.isDispatch = false → exec t o x s = some (r, s') →
        recovery.StepOK t o s s' ∧ recoveryKnows t p s' :=
      fun ho he => other_step (stable_recoveryKnows t p) ho hi hp he
    cases hedge with
    | entry =>
      obtain ⟨hok, hf⟩ := hother rfl he
      refine ⟨hok, ?_⟩
      rcases r with e | _ | h
      · trivial
      · exact hf.cameWith none
      · exact hf
    | first h =>
      obtain ⟨hok, hc⟩ := first_step hi hp he
      refine ⟨hok, ?_⟩
      rcases r with e | n
      · simp only [RequestPoint.afterFirst]
        split
        · exact hc
        · trivial
      · trivial
    | enter obj =>
      obtain ⟨hok, hc⟩ := hother rfl he
      exact ⟨hok, by cases r <;> trivial⟩
    | tryobj obj =>
      obtain ⟨hok, hc⟩ := hother rfl he
      refine ⟨hok, ?_⟩
      rcases r with e | v
      · trivial
      · simp only [RequestPoint.afterTry]
        split
        · exact hc
        · exact CameWith.afterRelease hc
    | release obj =>
      obtain ⟨hok, hc⟩ := hother rfl he
      exact ⟨hok, CameWith.afterRelease hc⟩
    | restarted =>
      obtain ⟨hok, hc⟩ := hother rfl he
      refine ⟨hok, ?_⟩
      rcases r with e | _ | h
      · trivial
      · trivial
      · exact CameWith.of_none hc _
    | leave h =>
      obtain ⟨hok, hc⟩ := hother rfl he
      exact ⟨hok, by cases r <;> trivial⟩
    | fail =>
      obtain ⟨hok, -⟩ := hother rfl he
      exact ⟨hok, by cases r <;> trivial⟩
    | «catch» => exact ⟨(hother rfl he).1, trivial⟩
    | second h => exact ⟨second_step hi hp he, trivial⟩
  silent h s _ _ := by cases h <;> trivial

theorem handleHostRequest_safe (t : Nat) (k : Int) (rr : Nat) :
    recovery.Triple t (Fresh t) (handleHostRequest k rr) fun _ _ => True := by
  refine handleHostRequest_outline (recoveryOutline t k rr) logBlind_recovery ?_
  refine (triple_other (stable_cameWith t none) (connectHost_other k)).weaken fun r s _ hc => ?_
  rcases r with e | _ | _ <;> trivial

/-! ## Runs -/

theorem stable_true (t : Nat) : recovery.Stable t fun _ => True := .const _

/-- A call starts with a new number. -/
theorem enter_fresh {t : Nat} {c : Call} {s : Factory} (hi : RedispatchInv s) : Fresh t (enter t c s) := by
  intro e he hm
  have hmem : e ∈ s.events := by
    cases c with
    | hostFinalized k h =>
      rcases List.mem_append.mp hm with hm | hm
      · exact hm
      · rw [List.mem_singleton] at hm; subst hm; cases he
    | _ => exact hm
  have hnum : (enter t c s).caller t = ⟨t, s.calls t + 1⟩ := by
    cases c <;> simp [enter, Factory.caller, Factory.note]
  rw [hnum] at he
  have hle : s.calls t + 1 ≤ s.calls t := hi.numbered _ e he hmem
  omega

theorem enter_mem (t : Nat) (call : Call) (s : Factory) {c : Caller} {e : Event} (he : e.isDispatchOf c = true) :
    e ∈ (enter t call s).events ↔ e ∈ s.events := by
  cases call with
  | hostFinalized k h =>
    show e ∈ s.events ++ _ ↔ _
    rw [List.mem_append, or_iff_left]
    intro hm
    rw [List.mem_singleton] at hm; subst hm; cases he
  | _ => exact Iff.rfl

theorem enter_calls (t : Nat) (call : Call) (s : Factory) :
    (enter t call s).calls = setAt s.calls t (s.calls t + 1) := by cases call <;> rfl

theorem enter_own {t t' : Nat} (call : Call) (s : Factory) (ht : t' ≠ t) : OwnDispatches t' s (enter t call s) :=
  ⟨by rw [enter_calls, setAt_of_ne _ _ ht], fun _ he => enter_mem t call s he⟩

theorem enter_inv {t : Nat} {call : Call} {s : Factory} (hi : RedispatchInv s) : RedispatchInv (enter t call s) := by
  have hmem : ∀ {c : Caller} {e : Event}, e.isDispatchOf c = true → (e ∈ (enter t call s).events ↔ e ∈ s.events) :=
    enter_mem t call s
  refine ⟨fun c e he hm => ?_, fun c site k h e hm => ?_, fun c k h hl k' h' hm => ?_⟩
  · have hle := hi.numbered c e he ((hmem he).mp hm)
    rw [enter_calls]
    by_cases ht : c.thread = t
    · rw [ht, setAt_self]; rw [ht] at hle; omega
    · rw [setAt_of_ne _ _ ht]; exact hle
  · exact (hmem (c := c) (by simp [Event.isDispatchOf])).mpr
      (hi.made c site k h e ((hmem (c := c) (by simp [Event.isDispatchOf])).mp hm))
  · obtain ⟨e, hlost, hraised⟩ := hl
    exact hi.same c k h ⟨e, hlost, (hmem (c := c) (by simp [Event.isDispatchOf])).mp hraised⟩ k' h'
      ((hmem (c := c) (by simp [Event.isDispatchOf])).mp hm)

/-- Every call of the factory keeps to the specification. -/
def recoveryCalls : recovery.Calls factoryTasks where
  idle _ _ := True
  stable := stable_true
  starts t c s hi _ _ := by
    have hi' : RedispatchInv (enter t c s) := enter_inv hi
    refine ⟨hi', fun t' ht => enter_own c s ht, ?_⟩
    cases c with
    | handleHostRequest k rr => exact handleHostRequest_safe t k rr _ hi' (@enter_fresh t (.handleHostRequest k rr) s hi)
    | hostFinalized k h =>
      exact triple_other (stable_true t) (.bind (fun _ => .pure 0) (hostFinalized_other k h)) _ hi' trivial
    | createHost v p svr => exact triple_other (stable_true t) (createHost_other v p svr) _ hi' trivial
    | destroy => exact triple_other (stable_true t) (.bind (fun _ => .pure 0) destroy_other) _ hi' trivial

/-- In every run a request that lost its host is dispatched again to that host. -/
theorem History.redispatchInv (H : History) : RedispatchInv H.last.shared := by
  have hinit : RedispatchInv newFactory := by
    constructor <;> simp [newFactory, LostFirst]
  exact (recoveryCalls.run_inv (recoveryCalls.inv_quiet hinit fun _ => trivial) (meets_anything _ _) H.ran).inv

/-! ## Why it returns 500 -/

/-- The call's dispatches, and what they raised, are among the events. -/
def Noted (t : Nat) (tr : List FDone) (s : Factory) : Prop :=
  ∀ site k h rr a s', (⟨.handleRequest site k h rr, a, s'⟩ : FDone) ∈ tr →
    .dispatched (s.caller t) site k h ∈ s.events ∧
      ∀ e, a = .error e → .dispatchRaised (s.caller t) site k h e ∈ s.events

theorem OwnDispatches.noted {t : Nat} {s s' : Factory} {tr : List FDone} (h : OwnDispatches t s s') (hn : Noted t tr s) :
    Noted t tr s' := by
  intro site k host rr a s'' hm
  obtain ⟨hd, hr⟩ := hn site k host rr a s'' hm
  rw [h.caller]
  exact ⟨(h.2 _ (by simp [Event.isDispatchOf])).mpr hd, fun e he => (h.2 _ (by simp [Event.isDispatchOf])).mpr (hr e he)⟩

theorem exec_own {t t' : Nat} {o : Op} {x : Choice} {s s' : Factory} {r : Except Exn o.Ans} (ht : t' ≠ t)
    (h : exec t o x s = some (r, s')) : OwnDispatches t' s s' := by
  cases ho : o.isDispatch with
  | false => exact (exec_other ho h).own t'
  | true =>
    cases o with
    | handleRequest site k host rr =>
      obtain ⟨b, raised, rfl⟩ := exec_dispatch h
      exact own_dispatch ht
    | _ => cases ho

/-- An operation of the call itself. -/
theorem Noted.snoc {t : Nat} {o : Op} {x : Choice} {s s' : Factory} {r : Except Exn o.Ans} {tr : List FDone}
    (h : Noted t tr s) (hx : exec t o x s = some (r, s')) : Noted t (tr ++ [⟨o, r, s⟩]) s' := by
  cases ho : o.isDispatch with
  | false =>
    intro site k host rr a s'' hm
    rcases List.mem_append.mp hm with hm | hm
    · exact ((exec_other ho hx).own t).noted h site k host rr a s'' hm
    · cases List.mem_singleton.mp hm
      cases ho
  | true =>
    cases o with
    | handleRequest site' k' host' rr' =>
      obtain ⟨b, raised, rfl, hraised⟩ : ∃ b raised, s' = s.note (dispatchEvents (s.caller t) site' k' host' b raised) ∧
          ∀ e, r = .error e → raised = some e := by
        rcases exec_handleRequest hx with ⟨b, n, rfl, rfl⟩ | ⟨b, e, rfl, rfl⟩
        · exact ⟨b, none, by simp [dispatchEvents], nofun⟩
        · exact ⟨b, some e, by simp [dispatchEvents], fun e' he => by cases he; rfl⟩
      intro site k host rr a s'' hm
      rcases List.mem_append.mp hm with hm | hm
      · obtain ⟨hd, hr⟩ := h site k host rr a s'' hm
        exact ⟨List.mem_append_left _ hd, fun e he => List.mem_append_left _ (hr e he)⟩
      · cases List.mem_singleton.mp hm
        refine ⟨?_, fun e he => ?_⟩
        · exact (mem_note_dispatch (c := s.caller t) (by simp [Event.isDispatchOf, Factory.caller, Factory.note])).mpr
            (.inr (.inl rfl))
        · exact (mem_note_dispatch (c := s.caller t) (by simp [Event.isDispatchOf, Factory.caller, Factory.note])).mpr
            (.inr (.inr ⟨e, hraised e he, rfl⟩))
    | _ => cases ho

def notedTracks : Tracks exec factoryTasks where
  inv t _ _ tr _ s := Noted t tr s
  start _ _ _ _ _ _ _ _ _ hm := absurd hm List.not_mem_nil
  own h _ _ _ hx := h.snoc hx
  other_start h _ call' ht := (enter_own call' _ (Ne.symm ht)).noted h
  other_step h _ _ _ _ _ ht hx := (exec_own (Ne.symm ht) hx).noted h

section
variable {k : Int} {rr : Nat} {host : HostId} {tr tr' : List FDone}

theorem lostHost_append : LostHost (tr ++ tr') k rr host ↔ LostHost tr k rr host ∨ LostHost tr' k rr host := by
  simp only [LostHost, List.mem_append, and_or_left, exists_or]

theorem not_lostHost_of_performs {α : Type} {p : FProg α} {r : Except Exn α}
    (hp : p.Performs (Op.isDispatch · = false)) (h : p.Ends tr r) : ¬ LostHost tr k rr host := by
  rintro ⟨e, s, -, hm⟩
  cases hp.ends h _ hm

theorem not_lostHost_one {d : FDone} (h : d.op.isDispatch = false) : ¬ LostHost [d] k rr host := by
  rintro ⟨e, s, -, hm⟩
  rw [← List.mem_singleton.mp hm] at h
  cases h

theorem logException_other (what : String) (e : Exn) (lvl : Int) (p : ServerPtr) :
    (logException what e lvl p).Performs (Op.isDispatch · = false) :=
  other_of_connect (logException_performs 0 what e lvl p)

/-- What the first dispatch can perform: nothing without an object; the host's
answer; or its exception, and then what is logged of it. -/
inductive FirstTrace (k : Int) (rr : Nat) : Option HostId → List FDone → Except Exn (Option Int) → Prop
  | nothing : FirstTrace k rr none [] (.ok none)
  | answered {h n s} : FirstTrace k rr (some h) [⟨.handleRequest .first k h rr, .ok n, s⟩] (.ok (some n))
  | lost {h e s what tr r} (he : e.hostLost = true)
      (hlog : Prog.Ends (logException what e APLOG_DEBUG (.ofRequest rr) >>= fun _ => pure none) tr r) :
      FirstTrace k rr (some h) (⟨.handleRequest .first k h rr, .error e, s⟩ :: tr) r
  | failed {h e s what tr r} (he : e.hostLost = false)
      (hlog : Prog.Ends (logException what e APLOG_ERR (.ofRequest rr) >>= fun _ => pure (some 500)) tr r) :
      FirstTrace k rr (some h) (⟨.handleRequest .first k h rr, .error e, s⟩ :: tr) r

theorem firstDispatch_ends {obj : Option HostId} {r : Except Exn (Option Int)} (h : (firstDispatch k obj rr).Ends tr r) :
    FirstTrace k rr obj tr r := by
  cases obj with
  | none =>
    obtain ⟨rfl, rfl⟩ := Prog.ends_pure h
    exact .nothing
  | some host =>
    rcases Prog.ends_tryCatch h with ⟨v, rfl, hbody⟩ | ⟨e, tr₁, tr₂, rfl, hbody, hhandler⟩
    · rcases Prog.ends_bind hbody with ⟨e, he, -⟩ | ⟨n, tr₁, tr₂, rfl, hcall, hpure⟩
      · cases he
      · obtain ⟨s, rfl⟩ := Prog.ends_perform hcall
        obtain ⟨rfl, hv⟩ := Prog.ends_pure hpure
        cases hv
        exact .answered
    · obtain ⟨s, rfl⟩ : ∃ s, tr₁ = [⟨.handleRequest .first k host rr, .error e, s⟩] := by
        rcases Prog.ends_bind hbody with ⟨e', he, hcall⟩ | ⟨n, tr₃, tr₄, rfl, -, hpure⟩
        · cases he; exact Prog.ends_perform hcall
        · cases (Prog.ends_pure hpure).2
      cases e with
      | RemotingException text | AppDomainUnloadedException text => exact .lost rfl hhandler
      | _ => exact .failed rfl hhandler

/-- The request that lost its host came with it, and goes on to the restart. -/
theorem firstDispatch_lost {obj : Option HostId} {v : Option Int} (h : (firstDispatch k obj rr).Ends tr (.ok v))
    (hl : LostHost tr k rr host) : obj = some host ∧ v = none := by
  have hlog : ∀ {e : Exn} {what : String} {lvl : Int} {w : Option Int} {tr : List FDone} {r : Except Exn (Option Int)},
      Prog.Ends (logException what e lvl (.ofRequest rr) >>= fun _ => pure w) tr r → ¬ LostHost tr k rr host :=
    fun h => not_lostHost_of_performs (.bind (fun _ => .pure _) (logException_other _ _ _ _)) h
  have hhead : ∀ {h : HostId} {e : Exn} {s : Factory} {tr : List FDone},
      LostHost (⟨.handleRequest .first k h rr, .error e, s⟩ :: tr) k rr host → ¬ LostHost tr k rr host →
        h = host ∧ e.hostLost = true := by
    rintro h e s tr ⟨e', s', he, hm⟩ hnot
    rcases List.mem_cons.mp hm with hm | hm
    · cases hm; exact ⟨rfl, he⟩
    · exact absurd ⟨e', s', he, hm⟩ hnot
  cases firstDispatch_ends h with
  | nothing => obtain ⟨e, s, -, hm⟩ := hl; cases hm
  | answered => obtain ⟨e, s, -, hm⟩ := hl; cases List.mem_singleton.mp hm
  | lost he hends =>
    obtain ⟨rfl, -⟩ := hhead hl (hlog hends)
    rcases Prog.ends_bind hends with ⟨e', he', -⟩ | ⟨u, l, tr₂, -, -, hpure⟩
    · cases he'
    · exact ⟨rfl, Except.ok.inj (Prog.ends_pure hpure).2⟩
  | failed he hends =>
    rw [(hhead hl (hlog hends)).2] at he
    cases he

/-- The restart keeps the object it is given. -/
theorem releaseStale_keeps {tryobj : Option HostId} {v : Option HostId}
    (h : (releaseStale k tryobj (some host)).Ends tr (.ok v)) : v = some host := by
  unfold releaseStale at h
  split at h
  · rename_i he
    rcases Prog.ends_bind h with ⟨e, he', -⟩ | ⟨u, tr₁, tr₂, -, -, hpure⟩
    · cases he'
    · exact (Except.ok.inj (Prog.ends_pure hpure).2).trans he
  · exact Except.ok.inj (Prog.ends_pure h).2

theorem restartLocked_target {v : Restart} (h : (restartLocked k (some host) rr).Ends tr (.ok v)) : v = .target host := by
  rcases Prog.ends_bind h with ⟨e, he, -⟩ | ⟨tryobj, tr₁, tl, -, -, hrest⟩
  · cases he
  rcases Prog.ends_bind hrest with ⟨e, he, -⟩ | ⟨obj, tr₂, tl, -, hrel, hexit⟩
  · cases he
  obtain rfl := releaseStale_keeps hrel
  rcases Prog.ends_bind hexit with ⟨e, he, -⟩ | ⟨u, tr₃, tl, -, -, hpure⟩
  · cases he
  · exact Except.ok.inj (Prog.ends_pure hpure).2

theorem LockedTrace.raised_of_error {e : Exn} (h : LockedTrace k tr (.error e)) : ∃ d ∈ tr, d.raised = true := by
  cases h with
  | raised hu hl => exact exists_of_lastRaised hl
  | unheld hu => exact ⟨_, List.mem_append_right _ (List.mem_singleton.mpr rfl), rfl⟩
  | byHandRaised hu hl hw hlw =>
    obtain ⟨d, hd, hraised⟩ := exists_of_lastRaised hlw
    exact ⟨d, List.mem_append_right _ (List.mem_cons_of_mem _ hd), hraised⟩

theorem restart_other (obj : Option HostId) : (restart k obj rr).Performs (Op.isDispatch · = false) := by
  refine (restart_performs k obj rr).imp fun o ho => ?_
  cases o <;> first | rfl | cases ho

/-- With an object, the restart fails only where it raised. -/
theorem restart_raised {n : Int} (h : (restart k (some host) rr).Ends tr (.ok (.failed n))) :
    ∃ d ∈ tr, d.op.isDispatch = false ∧ d.raised = true := by
  suffices hr : ∃ d ∈ tr, d.raised = true by
    obtain ⟨d, hd, hraised⟩ := hr
    exact ⟨d, hd, (restart_other (some host)).ends h d hd, hraised⟩
  rcases Prog.ends_bind h with ⟨e, he, -⟩ | ⟨entered, tr₁, tr₂, rfl, hen, hrest⟩
  · cases he
  obtain ⟨r', hr', hen⟩ := Prog.ends_attempt hen
  cases hr'
  obtain ⟨s, rfl⟩ := Prog.ends_perform hen
  cases entered with
  | error e => exact ⟨_, List.mem_append_left _ (List.mem_singleton.mpr rfl), rfl⟩
  | ok u =>
    rcases Prog.ends_tryCatch hrest with ⟨v, hv, hlocked⟩ | ⟨e, v, f, rfl, hlocked, -⟩
    · cases hv
      cases restartLocked_target hlocked
    · obtain ⟨d, hd, hraised⟩ := (restartLocked_ends hlocked).raised_of_error
      exact ⟨d, List.mem_append_right _ (List.mem_append_left _ hd), hraised⟩

theorem secondDispatch_ends {host' : HostId} {r : Except Exn Int} (h : (secondDispatch k host' rr).Ends tr r) :
    ∃ a s tr', tr = ⟨.handleRequest .second k host' rr, a, s⟩ :: tr' ∧ ∀ d ∈ tr', d.op.isDispatch = false := by
  rcases Prog.ends_tryCatch h with ⟨n, rfl, hcall⟩ | ⟨e, tr₁, tr₂, rfl, hcall, hlog⟩
  · obtain ⟨s, rfl⟩ := Prog.ends_perform hcall
    exact ⟨_, s, [], rfl, List.forall_mem_nil _⟩
  · obtain ⟨s, rfl⟩ := Prog.ends_perform hcall
    have hother : (logException "RequestHandler; failure following host restart; " e APLOG_ERR (.ofRequest rr) >>=
        fun _ => pure (500 : Int)).Performs (Op.isDispatch · = false) :=
      .bind (fun _ => .pure _) (logException_other _ e _ _)
    exact ⟨_, s, tr₂, rfl, hother.ends hlog⟩

/-- A request that lost its host and returns has raised in the restart, or was
dispatched again. -/
theorem handleHostRequest_excused {n : Int} (h : (handleHostRequest k rr).Ends tr (.ok n)) (hl : LostHost tr k rr host) :
    (∃ d ∈ tr, d.op.isDispatch = false ∧ d.raised = true) ∨
      ∃ h' a s, (⟨.handleRequest .second k h' rr, a, s⟩ : FDone) ∈ tr := by
  rcases Prog.ends_bind h with ⟨e, he, -⟩ | ⟨obj, g, tl, rfl, hget, hfrom⟩
  · cases he
  rcases Prog.ends_bind hfrom with ⟨e, he, -⟩ | ⟨first, f, tl, rfl, hfirst, hfell⟩
  · cases he
  have hlost : LostHost f k rr host ∨ LostHost tl k rr host := by
    obtain ⟨s, rfl⟩ := Prog.ends_perform hget
    exact lostHost_append.mp ((lostHost_append.mp hl).resolve_left (not_lostHost_one rfl))
  cases first with
  | some v =>
    obtain ⟨rfl, -⟩ := Prog.ends_pure hfell
    have hf := hlost.resolve_right fun ⟨e, s, _, hm⟩ => List.not_mem_nil hm
    cases (firstDispatch_lost hfirst hf).2
  | none =>
    rcases Prog.ends_bind hfell with ⟨e, he, -⟩ | ⟨u, l, tl, rfl, hlog, hon⟩
    · cases he
    rcases Prog.ends_bind hon with ⟨e, he, -⟩ | ⟨restarted, v, z, rfl, hr, hend⟩
    · cases he
    cases restarted with
    | failed m =>
      obtain ⟨rfl, -⟩ := Prog.ends_pure hend
      have hf : LostHost f k rr host := by
        refine hlost.resolve_right fun hl => ?_
        rcases lostHost_append.mp hl with hl | hl
        · exact not_lostHost_of_performs (other_of_connect (logMapping_performs k _ _ _)) hlog hl
        · rw [List.append_nil] at hl
          exact not_lostHost_of_performs (restart_other obj) hr hl
      obtain rfl := (firstDispatch_lost hfirst hf).1
      obtain ⟨d, hd, hop, hraised⟩ := restart_raised hr
      exact .inl ⟨d, by simp [hd], hop, hraised⟩
    | target h' =>
      obtain ⟨a, s, z', rfl, -⟩ := secondDispatch_ends hend
      exact .inr ⟨h', a, s, by simp⟩

end

/-- What has happened stays. -/
theorem run_events : ∀ {as : List FAction} {c c' : FConfig}, run exec factoryTasks c as = some c' →
    c.shared.events <+: c'.shared.events
  | [], _, _, h => by cases h; exact List.prefix_rfl
  | a :: as, c, c', h => by
    obtain ⟨c₁, ha, h⟩ := act_of_run_cons h
    refine List.IsPrefix.trans ?_ (run_events h)
    cases act_acts ha with
    | @start t call hnone =>
      cases call with
      | hostFinalized k host => exact List.prefix_append _ _
      | _ => exact List.prefix_rfl
    | @step t x o k r s hpool hx =>
      cases exec_did hx with
      | stored | created | configured | configureRaised | dispatched | exited => exact List.prefix_append _ _
      | listDropped l => rw [Factory.drop_events]
      | _ => exact List.prefix_rfl
    | finish hpool => exact List.prefix_rfl

theorem History.events_prefix {G H : History} (h : G.actions <+: H.actions) : G.events <+: H.events := by
  obtain ⟨as, has⟩ := h
  have hran := H.ran
  rw [← has, run_append, G.ran] at hran
  exact run_events hran

/-- For every run: the requests that lost their host move to another one
exactly when none of them gets to its second dispatch. -/
theorem recovery_exact (H : History) : Recovers H ↔ NoRedispatch H.events := by
  have hinv := H.redispatchInv
  constructor
  · intro hr c k h hl k' h' hm
    exact (hr.moves c k h hl k' h' hm).other (hinv.same c k h hl k' h' hm)
  · intro hn
    refine ⟨fun c k h hl k' h' hm => absurd hm (hn c k h hl k' h'),
      fun c k h hl k' e hm => hn c k h hl k' h (hinv.made c .second k' h e hm), ?_⟩
    intro G hG t k rr s₀ h hcall hend hlost
    rcases handleHostRequest_excused (G.ended hcall hend).1 hlost with ⟨d, hd, hop, hraised⟩ | ⟨h', a, s, hagain⟩
    · exact .raised hd (fun site k h rr he => by rw [he] at hop; cases hop) hraised
    · obtain ⟨_, _, -, hnoted⟩ := notedTracks.run (inv_quiet _) G.ran t _ hend
      obtain ⟨e, s', hl, hfirst⟩ := hlost
      have hsub := History.events_prefix hG
      refine absurd (hsub.subset (hnoted _ _ _ _ _ _ hagain).1) (hn _ k h ⟨e, hl, ?_⟩ k h')
      exact hsub.subset ((hnoted _ _ _ _ _ _ hfirst).2 e rfl)

/-! ## A request whose host is gone -/

/-- Thread 0 creates the host of key 0. Thread 1's request finds it gone, goes
through the restart section and dispatches again, to the same host. -/
def lostHostActions : List FAction :=
  (.start 0 (.createHost (wlit "/app") (wlit "C:/app") 0) :: List.replicate 12 (.step 0 .ok) : List FAction) ++
  ([.finish 0, .start 1 (.handleHostRequest 0 7), .step 1 .ok,
    .step 1 (.raise false (.RemotingException (wlit "gone")))] : List FAction) ++
  (List.replicate 10 (.step 1 .ok) : List FAction) ++
  ([.step 1 (.raise false (.RemotingException (wlit "gone")))] : List FAction)

def lostHostRun : History where
  actions := lostHostActions
  last := (run exec factoryTasks (.quiet newFactory) lostHostActions).get (by decide +kernel)
  ran := by rw [Option.some_get]

theorem lost_host_dispatched_again : ¬ ∀ H : History, Recovers H := by
  intro h
  have hlost : LostFirst lostHostRun.events ⟨1, 1⟩ 0 0 :=
    ⟨.RemotingException (wlit "gone"), rfl, by decide +kernel⟩
  have hagain : Event.dispatched ⟨1, 1⟩ .second 0 0 ∈ lostHostRun.events := by decide +kernel
  exact ((h lostHostRun).moves _ _ _ hlost _ _ hagain).other rfl

end ModAspNet.L4.HostFactory
