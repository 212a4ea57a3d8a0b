import ModAspNet.L5Worker.Body
import ModAspNet.L5Worker.Completion

/-!
# `Handler` waits for ASP.NET

`Handler` reads ahead, runs `HttpRuntime::ProcessRequest`, and waits for the
event that `EndOfRequest` sets. `ProcessRequest` makes calls on the worker; it
returns, after which ASP.NET owes one `EndOfRequest` if it has not made it, or
it raises, after which nothing more comes.

A `Step` is a call, the end of `ProcessRequest`, or the end of the wait; a run
is any sequence of steps that can be taken.

* `run_event`: only `EndOfRequest` sets the event.
* `stepped`: what a step does, case by case.
* `run_rule`: what every step keeps, every run keeps.
* `step_inv`, `run_inv`: who is where, and whether the event is set (`Inv`).
* `never_stuck_iff`: a run never leaves `Handler` waiting for nobody exactly
  when no exception comes before `EndOfRequest`.
-/
namespace ModAspNet.L5.HandlerRun

open ModAspNet.L1.CStr ModAspNet.L1.Managed
open ModAspNet.L5.Body (InputFilters handlerPreread newWorker)
open ModAspNet.L5.Completion

/-! ## The two parties -/

/-- Where `Handler` is; at the end with the status it returns, or with the
exception that leaves it. -/
inductive Phase where
  | processing
  | waiting
  | returned (status : Int)
  | raised (e : Exn)
  deriving DecidableEq

/-- ASP.NET: in `ProcessRequest`, owing an `EndOfRequest`, or through with the
request. -/
inductive Asp where
  | running
  | owes
  | through
  deriving DecidableEq

/-- `ended`: ASP.NET has made its `EndOfRequest`. -/
structure State where
  handler : Phase
  asp : Asp
  ended : Bool
  reply : Reply

def OK : Int := 0

/-- `Handler` after the preread. mirrors Apache.Web/WorkerRequest.cpp:475-539 -/
def started (F : InputFilters) (st : F.State) (w : Reply) : State :=
  match handlerPreread F st newWorker with
  | (some status, _, _) => ⟨.returned status, .through, false, w⟩
  | (none, _, _) => ⟨.processing, .running, false, w⟩

/-- The catch clause: the status for a response not begun, and two texts
logged. mirrors Apache.Web/WorkerRequest.cpp:544-554 -/
def catchException (uri : WString) (w : Reply) (e : Exn) : Result :=
  let w' := if !w.body_sent then { w with status := 500, status_line := .standard 500 } else w
  match logRequestError w' (wlit "ProcessRequest: fatal exception processing request " ++ uri ++
      wlit " exception follows;") with
  | (.error e', w'') => (.error e', w'')
  | (.ok (), w'') => logRequestError w'' e.toString

/-- mirrors Apache.Web/WorkerRequest.cpp:564-569 -/
def handlerStatus (w : Reply) : Int := if !w.body_sent then w.status else OK

def Call.isEnd : Call → Bool
  | .endOfRequest => true
  | _ => false

inductive Step where
  | call (c : Call)
  | returns
  | raises (e : Exn)
  | wakes

/-- mirrors Apache.Web/WorkerRequest.cpp:541-570 -/
def step (D : Delegate) (uri : WString) (s : State) : Step → Option State
  | .call c =>
    let made := { s with ended := s.ended || Call.isEnd c, reply := (c.run D s.reply).2 }
    match s.asp with
    | .running => some made
    | .owes => some { made with asp := if Call.isEnd c then .through else .owes }
    | .through => none
  | .returns =>
    match s.handler with
    | .processing => some { s with handler := .waiting, asp := if s.ended then .through else .owes }
    | _ => none
  | .raises e =>
    match s.handler with
    | .processing =>
      match catchException uri s.reply e with
      | (.error e', w) => some { s with handler := .raised e', asp := .through, reply := w }
      | (.ok (), w) => some { s with handler := .waiting, asp := .through, reply := w }
    | _ => none
  | .wakes =>
    if s.handler = .waiting ∧ s.reply.wait_complete then
      some { s with handler := .returned (handlerStatus s.reply) }
    else none

def run (D : Delegate) (uri : WString) : State → List Step → Option State
  | s, [] => some s
  | s, t :: steps =>
    match step D uri s t with
    | none => none
    | some s' => run D uri s' steps

/-! ## The property -/

/-- When `Handler` waits, the event is set or somebody will set it. -/
def NotStuck (s : State) : Prop := s.handler = .waiting → s.reply.wait_complete = true ∨ s.asp = .owes

/-- No reachable state of the run is stuck. -/
def NeverStuck (D : Delegate) (uri : WString) (s : State) (steps : List Step) : Prop :=
  ∀ done, done <+: steps → ∀ s', run D uri s done = some s' → NotStuck s'

/-- No exception leaves `ProcessRequest` before `EndOfRequest` was made, but
for one without a text, which `Handler` cannot log. -/
def RaisesAfterEnd (D : Delegate) (uri : WString) (s : State) (steps : List Step) : Prop :=
  ∀ done e, done ++ [.raises e] <+: steps → (run D uri s (done ++ [.raises e])).isSome →
    e.toString = [] ∨ .call .endOfRequest ∈ done

/-! ## The event -/

/-- With an empty slot only `EndOfRequest` sets the event, and it does. -/
theorem run_event (D : Delegate) {w : Reply} (h : w.eosnCallback = none) (c : Call) :
    (c.run D w).2.wait_complete = (w.wait_complete || Call.isEnd c) := by
  cases hc : c.completes with
  | false =>
    have hend : Call.isEnd c = false := by cases c <;> first | rfl | cases hc
    rw [(run_same D w hc).event, hend, Bool.or_false]
  | true =>
    rcases eq_of_completes hc with rfl | rfl
    · show (flushResponse D w true).2.wait_complete = (w.wait_complete || false)
      rw [flushResponse_empty D h, Bool.or_false]
      rfl
    · show (endOfRequest D w).2.wait_complete = (w.wait_complete || true)
      rw [endOfRequest_empty D h, Bool.or_true]

/-- The catch clause leaves it, and the slot, as they are. -/
theorem catchException_same (uri : WString) (w : Reply) (e : Exn) : SameNotice w (catchException uri w e).2 := by
  have hstatus : SameNotice w (if !w.body_sent then { w with status := 500, status_line := .standard 500 } else w) := by
    split <;> exact ⟨rfl, rfl, rfl⟩
  unfold catchException
  dsimp only
  generalize (if !w.body_sent then { w with status := 500, status_line := .standard 500 } else w) = w' at hstatus ⊢
  have hlog := logRequestError_same w' (wlit "ProcessRequest: fatal exception processing request " ++ uri ++
    wlit " exception follows;")
  split
  · rename_i e' w'' heq
    rw [heq] at hlog
    exact hstatus.trans hlog
  · rename_i w'' heq
    rw [heq] at hlog
    exact hstatus.trans (hlog.trans (logRequestError_same w'' e.toString))

/-- It raises again exactly when the exception has no text to log. -/
theorem catchException_ok_iff (uri : WString) (w : Reply) (e : Exn) :
    (catchException uri w e).1 = .ok () ↔ e.toString ≠ [] := by
  unfold catchException logRequestError
  dsimp only
  rw [if_neg (by simp [wlit])]
  dsimp only
  split <;> simp_all

/-! ## What a step does -/

/-- Case by case: who may take it, and what it leaves. -/
inductive Stepped (D : Delegate) (uri : WString) (s : State) : Step → State → Prop
  | running {c} (hr : s.asp = .running) :
      Stepped D uri s (.call c) { s with ended := s.ended || Call.isEnd c, reply := (c.run D s.reply).2 }
  | owing {c} (ho : s.asp = .owes) : Stepped D uri s (.call c)
      ⟨s.handler, if Call.isEnd c then .through else .owes, s.ended || Call.isEnd c, (c.run D s.reply).2⟩
  | returned (hp : s.handler = .processing) :
      Stepped D uri s .returns { s with handler := .waiting, asp := if s.ended then .through else .owes }
  | caught {e} (hp : s.handler = .processing) (htext : e.toString ≠ []) :
      Stepped D uri s (.raises e) ⟨.waiting, .through, s.ended, (catchException uri s.reply e).2⟩
  | raised {e e'} (hp : s.handler = .processing) (htext : e.toString = []) :
      Stepped D uri s (.raises e) ⟨.raised e', .through, s.ended, (catchException uri s.reply e).2⟩
  | woken (hw : s.handler = .waiting) : Stepped D uri s .wakes { s with handler := .returned (handlerStatus s.reply) }

theorem stepped {D : Delegate} {uri : WString} {s s' : State} {t : Step} (h : step D uri s t = some s') :
    Stepped D uri s t s' := by
  cases t with
  | call c =>
    unfold step at h
    dsimp only at h
    split at h
    · rename_i hr; cases h; exact .running hr
    · rename_i ho; cases h; exact .owing ho
    · cases h
  | returns =>
    unfold step at h
    dsimp only at h
    split at h
    · rename_i hp; cases h; exact .returned hp
    · cases h
  | raises e =>
    have hok := catchException_ok_iff uri s.reply e
    unfold step at h
    dsimp only at h
    split at h
    · rename_i hp
      split at h
      · rename_i e' w heq
        cases h
        rw [heq] at hok
        have hthrown : Stepped D uri s (.raises e) ⟨.raised e', .through, s.ended, (catchException uri s.reply e).2⟩ :=
          .raised hp (not_not.mp (mt hok.mpr (by simp)))
        rwa [heq] at hthrown
      · rename_i w heq
        cases h
        rw [heq] at hok
        have hcaught : Stepped D uri s (.raises e) ⟨.waiting, .through, s.ended, (catchException uri s.reply e).2⟩ :=
          .caught hp (hok.mp rfl)
        rwa [heq] at hcaught
    · cases h
  | wakes =>
    unfold step at h
    dsimp only at h
    split at h
    · rename_i hw; cases h; exact .woken hw.1
    · cases h

/-! ## The invariant -/

/-- After the steps `done`: who is where, and whether the event is set. -/
structure Inv (done : List Step) (s : State) : Prop where
  slot : s.reply.eosnCallback = none
  ended_iff : s.ended = true ↔ .call .endOfRequest ∈ done
  event : s.reply.wait_complete = s.ended
  processing_iff : s.handler = .processing ↔ s.asp = .running

section
variable {D : Delegate} {uri : WString}

/-- Only a call can be the `EndOfRequest`. -/
theorem ended_snoc {done : List Step} {s : State} {t : Step} (h : Inv done s) (ht : ∀ c, t ≠ .call c) :
    s.ended = true ↔ Step.call .endOfRequest ∈ done ++ [t] := by
  rw [h.ended_iff, List.mem_append, List.mem_singleton]
  exact ⟨.inl, fun hm => hm.resolve_right fun he => ht _ he.symm⟩

theorem ended_call {done : List Step} {s : State} (h : Inv done s) (c : Call) :
    (s.ended || Call.isEnd c) = true ↔ Step.call .endOfRequest ∈ done ++ [.call c] := by
  rw [Bool.or_eq_true, h.ended_iff, List.mem_append, List.mem_singleton, Step.call.injEq]
  refine or_congr_right ?_
  cases c <;> simp [Call.isEnd]

theorem step_inv {done : List Step} {s s' : State} {t : Step} (h : Inv done s) (hs : step D uri s t = some s') :
    Inv (done ++ [t]) s' := by
  have hevent : ∀ c : Call, (c.run D s.reply).2.wait_complete = (s.ended || Call.isEnd c) := by
    intro c
    rw [run_event D h.slot, h.event]
  have hended := ended_snoc (t := t) h
  cases stepped hs with
  | @running c hr => exact ⟨(run_slot D h.slot c).1, ended_call h c, hevent c, h.processing_iff⟩
  | @owing c ho =>
    have hno : s.handler ≠ .processing := fun e => by rw [h.processing_iff, ho] at e; cases e
    refine ⟨(run_slot D h.slot c).1, ended_call h c, hevent c, ⟨fun e => absurd e hno, fun e => ?_⟩⟩
    dsimp only at e
    split at e <;> cases e
  | returned hp =>
    refine ⟨h.slot, hended (by simp), h.event, ⟨fun e => (by cases e), fun e => ?_⟩⟩
    dsimp only at e
    split at e <;> cases e
  | @caught e hp htext =>
    have hsame := catchException_same uri s.reply e
    exact ⟨hsame.slot.trans h.slot, hended (by simp), hsame.event.trans h.event, by simp⟩
  | @raised e e' hp htext =>
    have hsame := catchException_same uri s.reply e
    exact ⟨hsame.slot.trans h.slot, hended (by simp), hsame.event.trans h.event, by simp⟩
  | woken hw =>
    refine ⟨h.slot, hended (by simp), h.event, ⟨fun e => (by cases e), fun e => ?_⟩⟩
    have := h.processing_iff.mpr e
    rw [hw] at this
    cases this

theorem run_append : ∀ (a b : List Step) (s : State), run D uri s (a ++ b) = (run D uri s a).bind fun s' => run D uri s' b
  | [], _, _ => rfl
  | t :: a, b, s => by
    simp only [List.cons_append, run]
    cases step D uri s t with
    | none => rfl
    | some s' => exact run_append a b s'

theorem run_snoc {a : List Step} {t : Step} {s s' : State} (h : run D uri s (a ++ [t]) = some s') :
    ∃ s₁, run D uri s a = some s₁ ∧ step D uri s₁ t = some s' := by
  rw [run_append] at h
  obtain ⟨s₁, h₁, ht⟩ := Option.bind_eq_some_iff.mp h
  refine ⟨s₁, h₁, ?_⟩
  unfold run at ht
  split at ht
  · cases ht
  · rename_i s₂ hstep
    rw [hstep]
    exact ht

theorem started_inv (F : InputFilters) (st : F.State) (status : Int) (line : StatusLine) (headers : Headers.Response) :
    Inv [] (started F st (newReply status line headers)) := by
  unfold started
  split
  · exact ⟨rfl, by simp, rfl, by simp⟩
  · exact ⟨rfl, by simp, rfl, by simp⟩

/-- What holds at the start and after each step taken holds in every state
reached, of the steps that led there. -/
theorem run_rule {s : State} {P : List Step → State → Prop} (h : P [] s)
    (hstep : ∀ {done t s₁ s'}, run D uri s done = some s₁ → P done s₁ → step D uri s₁ t = some s' → P (done ++ [t]) s') :
    ∀ (done : List Step) {s' : State}, run D uri s done = some s' → P done s' := by
  intro done
  induction done using List.reverseRecOn with
  | nil => intro s' hr; cases hr; exact h
  | append_singleton done t ih =>
    intro s' hr
    obtain ⟨s₁, h₁, ht⟩ := run_snoc hr
    exact hstep h₁ (ih h₁) ht

theorem run_inv {s : State} (h : Inv [] s) (done : List Step) {s' : State} (hr : run D uri s done = some s') :
    Inv done s' :=
  run_rule h (fun _ hi ht => step_inv hi ht) done hr

/-! ## Stuck or not -/

/-- A step other than an exception before the end leaves `Handler` with
somebody to wait for. -/
theorem step_notStuck {done : List Step} {s s' : State} {t : Step} (h : Inv done s)
    (hs : step D uri s t = some s') (hok : ∀ e, t = .raises e → e.toString = [] ∨ s.ended = true) : NotStuck s' := by
  have h' := step_inv h hs
  intro hwait
  rw [h'.event]
  cases stepped hs with
  | running hr =>
    have := h.processing_iff.mpr hr
    exact absurd (this.symm.trans hwait) (by simp)
  | @owing c ho =>
    cases hc : Call.isEnd c
    · exact .inr (by simp)
    · exact .inl (by simp)
  | returned hp =>
    cases hend : s.ended
    · exact .inr (by simp)
    · exact .inl rfl
  | @caught e hp htext => exact .inl ((hok e rfl).resolve_left htext)
  | raised => cases hwait
  | woken => cases hwait

/-- An exception with a text, before the end: nobody is left to set the event. -/
theorem raises_stuck {done : List Step} {s s' : State} {e : Exn} (h : Inv done s)
    (hs : step D uri s (.raises e) = some s') (htext : e.toString ≠ []) (hend : s.ended = false) : ¬ NotStuck s' := by
  have hevent := (step_inv h hs).event
  cases stepped hs with
  | caught hp _ =>
    intro hn
    dsimp only at hevent
    rcases hn rfl with hset | howes
    · rw [hevent, hend] at hset; cases hset
    · cases howes
  | raised hp hno => exact absurd hno htext

/-- For every preread, every behaviour of the callbacks and every run. -/
theorem never_stuck_iff (D : Delegate) (uri : WString) (F : InputFilters) (st : F.State) (status : Int)
    (line : StatusLine) (headers : Headers.Response) (steps : List Step) :
    NeverStuck D uri (started F st (newReply status line headers)) steps ↔
      RaisesAfterEnd D uri (started F st (newReply status line headers)) steps := by
  have hinv := started_inv F st status line headers
  constructor
  · intro h done e hpre hsome
    obtain ⟨s', hs'⟩ := Option.isSome_iff_exists.mp hsome
    obtain ⟨s, hs, hstep⟩ := run_snoc hs'
    by_contra hno
    rw [not_or] at hno
    have hinv' := run_inv hinv done hs
    have hend : s.ended = false := Bool.eq_false_iff.mpr (mt hinv'.ended_iff.mp hno.2)
    exact raises_stuck hinv' hstep hno.1 hend (h _ hpre s' hs')
  · intro h done hpre s' hs'
    rcases List.eq_nil_or_concat' done with rfl | ⟨done, t, rfl⟩
    · intro hwait
      cases hs'
      unfold started at hwait
      split at hwait <;> cases hwait
    · obtain ⟨s, hs, hstep⟩ := run_snoc hs'
      have hinv' := run_inv hinv done hs
      refine step_notStuck hinv' hstep fun e he => ?_
      subst he
      exact (h done e hpre (by rw [hs']; rfl)).imp_right hinv'.ended_iff.mpr

end

/-- Filters that have nothing but EOS. -/
def emptyBody : InputFilters := ⟨Unit, fun _ _ => (.ok [.eos], ())⟩

/-- `ProcessRequest` raises at once. -/
theorem handler_stuck : ¬ ∀ (D : Delegate) (uri : WString) (F : InputFilters) (st : F.State) (status : Int)
    (line : StatusLine) (headers : Headers.Response) (steps : List Step),
    NeverStuck D uri (started F st (newReply status line headers)) steps := by
  intro h
  have hstuck := h (fun _ _ w => (.ok (), w)) (wlit "/app/a.aspx") emptyBody () 200 (.standard 200) ⟨none, []⟩
    [.raises .IndexOutOfRangeException] _ (List.prefix_refl _) _ rfl
  revert hstuck
  unfold NotStuck
  decide

end ModAspNet.L5.HandlerRun
