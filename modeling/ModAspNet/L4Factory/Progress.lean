import ModAspNet.Core.Progress
import ModAspNet.L4Factory.Monitor

/-!
# No deadlock

The factory has one lock, its monitor, and the calls of the runtime system that
`HandleHostRequest` makes under it (`CreateApplicationHost`, `Configure`) may
take any time but come back. A thread that is kept waits for the monitor, and
it waits for a thread that goes on.

* `monitor_grants`: entering the monitor is the only operation that can be
  impossible.
* `never_deadlocked`: in every run of careful calls a thread in a call goes on,
  or waits for one that does, and without new calls the run ends.
-/
namespace ModAspNet.L4.HostFactory

open ModAspNet.L1.Managed
open ModAspNet.Core

/-- Nothing raises. -/
def Choice.completes : Choice → Bool
  | .raise _ _ => false
  | _ => true

section
variable {t : Nat} {s : Factory}

/-- Any operation but entering the monitor can be performed now. -/
theorem exec_possible {o : Op} (ho : o.enters = false) : ∃ x, Choice.completes x = true ∧ (exec t o x s).isSome = true := by
  cases o with
  | handleRequest site k h rr => exact ⟨.status true 0, rfl, rfl⟩
  | monitorEnter => cases ho
  | hostObjCount | hostObjSet k v | hostSvrAdd p | hostURIAdd u | hostDirAdd d | hostObjAdd
  | logServerError msg lvl p | monitorExit section_end =>
    refine ⟨.ok, rfl, ?_⟩
    simp only [exec]
    repeat' split
    all_goals rfl
  | _ => exact ⟨.ok, rfl, rfl⟩

theorem depth_pos_iff : 0 < s.depth t ↔ s.owner = some t := by
  constructor
  · intro hd
    by_contra hne
    rw [depth_of_owner hne] at hd
    cases hd
  · intro ho
    unfold Factory.owner at ho
    obtain ⟨⟨t', n⟩, hm, rfl⟩ := Option.map_eq_some_iff.mp ho
    simp [Factory.depth, hm]

/-- The monitor can be entered when no other thread is inside. -/
theorem enter_possible (h : ∀ u, u ≠ t → s.depth u = 0) : (exec t .monitorEnter .ok s).isSome = true := by
  simp only [exec]
  split
  · rfl
  · rename_i t' n hm
    have hin : s.owner = some t' := by rw [Factory.owner, hm]; rfl
    have ht : t' = t := by
      by_contra hne
      exact absurd (depth_pos_iff.mpr hin) (by rw [h t' hne]; omega)
    rw [if_pos ht]
    rfl

end

theorem monitor_grants : monitorLock.Grants fun x => Choice.completes x = true where
  rest _ _ _ ho := exec_possible ho
  enter t o s ho h := by
    cases o with
    | monitorEnter => exact ⟨.ok, rfl, enter_possible h⟩
    | _ => cases ho
  one t u s ht hu := Option.some.inj ((depth_pos_iff.mp ht).symm.trans (depth_pos_iff.mp hu))

/-- The thread can go on without anything raising. -/
abbrev Goes (c : FConfig) (t : Nat) : Prop := GoesOn exec factoryTasks (fun x => Choice.completes x = true) c t

/-- Nobody waits in vain, and nothing goes on for ever by itself. -/
structure Lively (c : FConfig) : Prop where
  goes : ∀ t p, c.pool t = some p → Goes c t ∨ ∃ u, monitorLock.WaitsFor c t u ∧ Goes c u
  ends : ¬ ∃ cs : Nat → FConfig, cs 0 = c ∧ ∀ n, Continues exec factoryTasks (cs (n + 1)) (cs n)

/-- In every run of careful calls, with any failures in them: a thread in a call
can go on or waits for the monitor, which is held by a thread that can go on;
and no continuation of the run without new calls is infinite. -/
theorem never_deadlocked (H : History) (hcareful : EveryCallCareful H.actions) : Lively H.last := by
  refine ⟨fun t p hp => ?_, fun ⟨cs, hzero, hnext⟩ => ?_⟩
  · exact Lock.goes_or_waits monitor_grants (free_of_careful H.actions H.ran hcareful).idle hp
  · have hthreads : ∀ t, H.last.pool t ≠ none → t ∈ (H.actions.map Action.thread).dedup := by
      intro t ht
      rcases pool_of_run H.ran t ht with h | h
      · exact absurd rfl h
      · exact List.mem_dedup.mpr h
    have hacc : Acc (Continues exec factoryTasks) H.last := continues_acc (List.nodup_dedup _) hthreads
    exact (acc_iff_isEmpty_descending_chain.mp hacc).false ⟨cs, hzero, hnext⟩

/-! ## A thread that waits -/

def waitingActions : List FAction :=
  List.flatten [createdActions, [.start 1 (.handleHostRequest 0 7), .start 2 (.handleHostRequest 0 8)],
    [.step 1 .ok, .step 1 (.raise false (.RemotingException (wlit "gone")))], List.replicate 7 (.step 1 .ok),
    [.step 2 .ok, .step 2 (.raise false (.RemotingException (wlit "gone")))], List.replicate 6 (.step 2 .ok)]

/-- The host of two requests is gone; thread 1 is in the restart section, and
thread 2 is about to enter it. -/
def waitingRun : History where
  actions := waitingActions
  last := (run exec factoryTasks (.quiet newFactory) waitingActions).get (by decide +kernel)
  ran := by rw [Option.some_get]

/-- Whether the calls of the threads, where they have ended, are mounts. -/
def onlyMountsEnded (as : List FAction) (t : Nat) : Bool :=
  (run exec factoryTasks (.quiet newFactory) as).all fun c =>
    match c.pool t, Core.calling exec factoryTasks (.quiet newFactory) (fun _ => none) as t with
    | some (.call _ _), _ => true
    | some _, some (.createHost _ _ _, _) => true
    | none, _ => true
    | _, _ => false

theorem waitingRun_careful : EveryCallCareful waitingRun.actions := by
  intro H (hH : H.actions <+: waitingActions) t call s₀ r hcall hend
  have hcheck : ∀ i ∈ List.range (waitingActions.length + 1), ∀ t ∈ waitingActions.map Action.thread,
      onlyMountsEnded (waitingActions.take i) t = true := by decide +kernel
  have ht : t ∈ H.actions.map Action.thread := (pool_of_run H.ran t (by simp [hend])).resolve_left fun h => h rfl
  have hmount := hcheck H.actions.length (List.mem_range.mpr (Nat.lt_succ_of_le hH.length_le)) t
    ((hH.map Action.thread).subset ht)
  rw [← List.prefix_iff_eq_take.mp hH, onlyMountsEnded, H.ran, Option.all_some, hend, ← History.calling, hcall] at hmount
  cases r <;> cases call <;> trivial

theorem never_deadlocked_waiting : monitorLock.WaitsFor waitingRun.last 2 1 ∧ Lively waitingRun.last :=
  ⟨⟨by decide, by decide +kernel, .monitorEnter, _, rfl, rfl⟩, never_deadlocked waitingRun waitingRun_careful⟩

end ModAspNet.L4.HostFactory
