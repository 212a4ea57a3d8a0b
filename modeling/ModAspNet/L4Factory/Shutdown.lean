import ModAspNet.L4Factory.Monitor

/-!
# After `Destroy`

`Destroy` drops the encoding and then the four lists. Nothing makes them again,
and every function begins by reading one of them, `HostFinalized` once it has
entered the monitor.

* `exec_writes`: an operation stores what it says, or leaves the entries as they are.
* `exec_destroyed`: a destroyed factory stays so, and no entry of it is written.
* `destroyed_for_good`: in every run, however calls that were under way go on,
  a call that begins after that dispatches nothing and makes no host: it comes to
  the first read and no further.
-/
namespace ModAspNet.L4.HostFactory

open ModAspNet.L1.Managed
open ModAspNet.Core

/-- What `Destroy` leaves. -/
structure Destroyed (s : Factory) : Prop where
  encoding : s.utf8_encoding = false
  uri : s.hostURI = none
  dir : s.hostDir = none
  obj : s.hostObj = none
  svr : s.hostSvr = none

def Event.isStored : Event → Bool
  | .stored _ _ _ => true
  | _ => false

/-- More has happened, but no entry was written. -/
def Unwritten (s s' : Factory) : Prop := ∃ l, s'.events = s.events ++ l ∧ ∀ e ∈ l, e.isStored = false

theorem Unwritten.refl (s : Factory) : Unwritten s s := ⟨[], by simp, by simp⟩

theorem Unwritten.trans {s s' s'' : Factory} (h : Unwritten s s') (h' : Unwritten s' s'') : Unwritten s s'' := by
  obtain ⟨l, hl, hp⟩ := h
  obtain ⟨l', hl', hp'⟩ := h'
  refine ⟨l ++ l', by rw [hl', hl, List.append_assoc], fun e he => ?_⟩
  exact (List.mem_append.mp he).elim (hp e) (hp' e)

theorem Unwritten.isPrefix {s s' : Factory} (h : Unwritten s s') : s.events <+: s'.events :=
  let ⟨l, hl, _⟩ := h
  ⟨l, hl.symm⟩

section
variable {t : Nat} {s s' : Factory}

/-- An operation stores what it says, or no entry is written and none gets a host. -/
theorem exec_writes {o : Op} {x : Choice} {r : Except Exn o.Ans} (h : exec t o x s = some (r, s')) :
    (∃ k v v₀, o = .hostObjSet k v ∧ item s.hostObj k = .ok v₀ ∧ s' = s.store (s.caller t) k v) ∨
    Unwritten s s' ∧ ∀ k h, item s'.hostObj k = .ok (some h) → item s.hostObj k = .ok (some h) := by
  have hquiet : ∀ {s' : Factory} (l : List Event), s'.hostObj = s.hostObj → s'.events = s.events ++ l →
      (∀ e ∈ l, e.isStored = false) →
      Unwritten s s' ∧ ∀ k h, item s'.hostObj k = .ok (some h) → item s.hostObj k = .ok (some h) :=
    fun l ho hl hp => ⟨⟨l, hl, hp⟩, fun k h hk => by rwa [ho] at hk⟩
  cases exec_did h with
  | @stored k v v₀ hv => exact .inl ⟨k, v, v₀, rfl, hv, rfl⟩
  | created => exact .inr (hquiet _ rfl rfl (by simp [Event.isStored]))
  | configured => exact .inr (hquiet _ rfl rfl (by simp [Event.isStored]))
  | configureRaised e => exact .inr (hquiet _ rfl rfl (by simp [Event.isStored]))
  | dispatched b raised =>
    refine .inr (hquiet _ rfl rfl ?_)
    cases b <;> cases raised <;> simp [dispatchEvents, started, Event.isStored]
  | @exited section_end m ho hm =>
    refine .inr (hquiet _ rfl rfl ?_)
    cases section_end <;> simp [sectionEnd, Event.isStored]
  | addedObj l hl =>
    refine .inr ⟨⟨[], by simp, by simp⟩, fun k h hk => ?_⟩
    rcases item_of_add hl hk with hk | hk
    · exact hk
    · cases hk
  | listDropped l =>
    cases l with
    | hostObj => exact .inr ⟨⟨[], by simp, by simp⟩, fun k h hk => by cases hk⟩
    | hostURI | hostDir | hostSvr => exact .inr (hquiet [] rfl (by simp) (by simp))
  | log | entered | addedSvr | addedURI | addedDir | encodingDropped => exact .inr (hquiet [] rfl (by simp) (by simp))

theorem exec_destroyed {o : Op} {x : Choice} {r : Except Exn o.Ans} (hd : Destroyed s)
    (h : exec t o x s = some (r, s')) : Destroyed s' ∧ Unwritten s s' := by
  rcases exec_writes h with ⟨k, v, v₀, -, hv, -⟩ | ⟨hu, -⟩
  · rw [hd.obj] at hv
    cases hv
  refine ⟨?_, hu⟩
  obtain ⟨henc, huri, hdir, hobj, hsvr⟩ := hd
  cases exec_did h with
  | stored hv => rw [hobj] at hv; cases hv
  | addedSvr l hl => rw [hsvr] at hl; cases hl
  | addedURI l hl => rw [huri] at hl; cases hl
  | addedDir l hl => rw [hdir] at hl; cases hl
  | addedObj l hl => rw [hobj] at hl; cases hl
  | listDropped l => cases l <;> (constructor <;> first | assumption | rfl)
  | encodingDropped => exact ⟨rfl, huri, hdir, hobj, hsvr⟩
  | _ => exact ⟨henc, huri, hdir, hobj, hsvr⟩

theorem enter_unwritten (t : Nat) (c : Call) (s : Factory) :
    Unwritten s (enter t c s) ∧ (enter t c s).hostObj = s.hostObj ∧ (enter t c s).hosts = s.hosts := by
  cases c with
  | hostFinalized k h => exact ⟨⟨[.finalized k h], rfl, by simp [Event.isStored]⟩, rfl, rfl⟩
  | _ => exact ⟨.refl s, rfl, rfl⟩

theorem enter_destroyed {c : Call} (hd : Destroyed s) : Destroyed (enter t c s) ∧ Unwritten s (enter t c s) := by
  refine ⟨?_, (enter_unwritten t c s).1⟩
  cases c <;> exact ⟨hd.encoding, hd.uri, hd.dir, hd.obj, hd.svr⟩

theorem act_destroyed {c c' : FConfig} {a : FAction} (hd : Destroyed c.shared) (ha : act exec factoryTasks c a = some c') :
    Destroyed c'.shared ∧ Unwritten c.shared c'.shared := by
  cases act_acts ha with
  | start => exact enter_destroyed hd
  | step hpool hx => exact exec_destroyed hd hx
  | finish => exact ⟨hd, .refl _⟩

theorem run_destroyed : ∀ {as : List FAction} {c c' : FConfig}, Destroyed c.shared →
    run exec factoryTasks c as = some c' → Destroyed c'.shared ∧ Unwritten c.shared c'.shared
  | [], _, _, hd, h => by cases h; exact ⟨hd, .refl _⟩
  | a :: as, c, c', hd, h => by
    obtain ⟨c₁, ha, h⟩ := act_of_run_cons h
    obtain ⟨hd₁, hu₁⟩ := act_destroyed hd ha
    exact (run_destroyed hd₁ h).imp_right hu₁.trans

end

/-! ## Calls that come too late -/

/-- How far a call has come that began when the factory was destroyed: what it
has performed, and what is left of it. -/
inductive Refused : Call → List FDone → FProg Int → Prop
  | begun (call) : Refused call [] (body call)
  | request {k rr s} : Refused (.handleHostRequest k rr)
      [⟨.hostObjGet k .entry, .error .NullReferenceException, s⟩] (.throw .NullReferenceException)
  | mount {v p svr s} : Refused (.createHost v p svr)
      [⟨.hostObjCount, .error .NullReferenceException, s⟩] (.throw .NullReferenceException)
  /-- `Destroy` does nothing the second time -/
  | again {s} : Refused .destroy [⟨.utf8EncodingGet, .ok false, s⟩] (.ret 0)
  /-- `Enter` raised -/
  | unentered {k h e s} : Refused (.hostFinalized k h) [⟨.monitorEnter, .error e, s⟩] (.throw e)
  | entered {k h s rest} (hrest : body (.hostFinalized k h) = .call .monitorEnter rest) :
      Refused (.hostFinalized k h) [⟨.monitorEnter, .ok (), s⟩] (rest (.ok ()))
  /-- the monitor is not left -/
  | finalizer {k h s s'} : Refused (.hostFinalized k h)
      [⟨.monitorEnter, .ok (), s⟩, ⟨.hostObjGet k .finalizer, .error .NullReferenceException, s'⟩]
      (.throw .NullReferenceException)

/-- One operation of such a call. -/
theorem Refused.next {call : Call} {tr : List FDone} {o : Op} {k : Except Exn o.Ans → FProg Int}
    (h : Refused call tr (.call o k)) {t : Nat} {x : Choice} {s s' : Factory} {r : Except Exn o.Ans}
    (hd : Destroyed s) (hx : exec t o x s = some (r, s')) : Refused call (tr ++ [⟨o, r, s⟩]) (k r) := by
  have hread : ∀ {key : Int} {site : ReadSite} {r : Except Exn (Option HostId)},
      exec t (.hostObjGet key site) x s = some (r, s') → r = .error .NullReferenceException := by
    intro key site r hx
    rw [(exec_hostObjGet hx).1, hd.obj]
    rfl
  generalize hp : Prog.call o k = p at h
  cases h with
  | begun =>
    cases call with
    | handleHostRequest key rr =>
      cases hp
      obtain rfl := hread hx
      exact .request
    | createHost v q svr =>
      cases hp
      cases x <;> simp only [exec, hd.obj, Option.some.injEq, Prod.mk.injEq, reduceCtorEq] at hx
      obtain ⟨rfl, rfl⟩ := hx
      exact .mount
    | destroy =>
      cases hp
      cases x <;> simp only [exec, hd.encoding, Option.some.injEq, Prod.mk.injEq, reduceCtorEq] at hx
      obtain ⟨rfl, rfl⟩ := hx
      exact .again
    | hostFinalized key host =>
      cases hp
      rcases r with e | u
      · exact .unentered
      · exact .entered rfl
  | @entered key host s₀ rest hrest =>
    cases hrest
    cases hp
    obtain rfl := hread hx
    exact .finalizer
  | _ => cases hp

/-- A call that began when the factory was destroyed. -/
def refusedTracks : Tracks exec factoryTasks where
  inv _ call s₀ tr p s := Destroyed s₀ → Destroyed s ∧ Refused call tr p
  start _ call _ hd := ⟨(enter_destroyed hd).1, .begun call⟩
  own h _ _ _ hx hd :=
    have ⟨hds, hr⟩ := h hd
    ⟨(exec_destroyed hds hx).1, hr.next hds hx⟩
  other_start h _ _ _ hd := ⟨(enter_destroyed (h hd).1).1, (h hd).2⟩
  other_step h _ _ _ _ _ _ hx hd := ⟨(exec_destroyed (h hd).1 hx).1, (h hd).2⟩

/-- A run and its continuation. -/
def History.andThen (H : History) (as : List FAction) (c : FConfig) (h : run exec factoryTasks H.last as = some c) : History where
  actions := H.actions ++ as
  last := c
  ran := by rw [run_append, H.ran]; exact h

/-- In every run, and however it goes on once the factory is destroyed: it stays
destroyed, no entry is written any more, and a call that began after that has
come no further than its first read. -/
theorem destroyed_for_good (H : History) (hd : Destroyed H.last.shared) (as : List FAction) (c : FConfig)
    (h : run exec factoryTasks H.last as = some c) :
    Destroyed c.shared ∧ Unwritten H.last.shared c.shared ∧
      ∀ t call s₀ p, (H.andThen as c h).calling t = some (call, s₀) → Destroyed s₀ → c.pool t = some p →
        Refused call ((H.andThen as c h).record t) p := by
  obtain ⟨hdc, hu⟩ := run_destroyed hd h
  refine ⟨hdc, hu, fun t call s₀ p hcall hd₀ hp => ?_⟩
  obtain ⟨call', s', hκ, hr⟩ := refusedTracks.run (inv_quiet _) (H.andThen as c h).ran t p hp
  cases hκ.symm.trans hcall
  exact (hr hd₀).2

def destroyedActions : List FAction :=
  List.flatten [createdActions, [.start 0 .destroy], List.replicate 8 (.step 0 .ok), [.finish 0]]

/-- A host is mounted, and the factory destroyed. -/
def destroyedRun : History where
  actions := destroyedActions
  last := (run exec factoryTasks (.quiet newFactory) destroyedActions).get (by decide +kernel)
  ran := by rw [Option.some_get]

/-- A request comes too late. -/
theorem destroyed_for_good_request : ∃ tr, Refused (.handleHostRequest 0 7) tr (.throw .NullReferenceException) := by
  have hd : Destroyed destroyedRun.last.shared := ⟨rfl, rfl, rfl, rfl, rfl⟩
  obtain ⟨c, h⟩ : ∃ c, run exec factoryTasks destroyedRun.last [.start 1 (.handleHostRequest 0 7), .step 1 .ok] = some c :=
    ⟨_, rfl⟩
  obtain ⟨s₀, hcall, hd₀⟩ : ∃ s₀, (destroyedRun.andThen _ c h).calling 1 = some (.handleHostRequest 0 7, s₀) ∧
      Destroyed s₀ := ⟨_, rfl, rfl, rfl, rfl, rfl, rfl⟩
  have hp : c.pool 1 = some (.throw .NullReferenceException) := by cases h; rfl
  exact ⟨_, (destroyed_for_good destroyedRun hd _ c h).2.2 1 _ s₀ _ hcall hd₀ hp⟩

end ModAspNet.L4.HostFactory
