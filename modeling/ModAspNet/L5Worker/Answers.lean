import ModAspNet.L5Worker.HandlerRun

/-!
# `HeadersSent` and the status `Handler` returns

`body_sent` says whether something was handed to the output filters; it is what
`HeadersSent` answers, what the catch clause looks at and what decides between
`OK` and `rr->status` at the end of `Handler`. `SendResponseFromFile` sets it
after `InternalResponseFromFile`, which leaves early when `apr_os_file_put`
fails.

* `call_outcome`: what a call hands over, and what it does to the flag.
* `step_settled`, `run_settled`: what holds of the end of the request in any run.
* `step_truthful_iff`: a step keeps the answers true exactly when it is careful.
* `answers_truthful_iff`: the same for runs.
-/
namespace ModAspNet.L5.Answers

open ModAspNet.L1.CStr ModAspNet.L1.Managed
open ModAspNet.L5.Body (InputFilters handlerPreread newWorker)
open ModAspNet.L5.Completion ModAspNet.L5.HandlerRun

/-- mirrors Apache.Web/WorkerRequest.h:522-530 -/
def headersSent (w : Reply) : Bool := w.body_sent

/-- The preread has succeeded, and `ProcessRequest` is called. -/
def processing (w : Reply) : State := ⟨.processing, .running, false, w⟩

theorem started_of_preread (F : InputFilters) (st : F.State) (w : Reply)
    (h : (handlerPreread F st newWorker).1 = none) : started F st w = processing w := by
  unfold started processing
  split
  · rename_i heq; rw [heq] at h; cases h
  · rfl

/-! ## The property -/

/-- After the steps `done`: what `HeadersSent` answers and what `Handler`
returned tell whether a brigade was handed over. -/
structure Truthful (done : List Step) (s : State) : Prop where
  headers : headersSent s.reply = true ↔ s.reply.passed ≠ []
  ok : ∀ status, s.handler = .returned status → (status = OK ↔ s.reply.passed ≠ [])
  status : ∀ status, s.handler = .returned status → s.reply.passed = [] → status = s.reply.status
  exception : ∀ status e, s.handler = .returned status → .raises e ∈ done → s.reply.passed = [] → status = 500
  /-- `Handler` returns: it is not left by an exception, nor left waiting. -/
  returns : (∀ e, s.handler ≠ .raised e) ∧ (s.handler = .waiting → s.asp = .through → s.reply.wait_complete = true)

/-- In every state of the run. -/
def AlwaysTruthful (D : Delegate) (uri : WString) (s : State) (steps : List Step) : Prop :=
  ∀ done, done <+: steps → ∀ s', run D uri s done = some s' → Truthful done s'

/-- A file of which nothing reaches a brigade: `apr_os_file_put` fails. -/
def Call.LosesFile : Call → Prop
  | .sendResponseFromFile _ a _ _ length => length ≠ 0 ∧ a.put ≠ 0
  | .sendResponseFromNamedFile _ a stream _ length => length ≠ 0 ∧ (∃ handle, stream = .ok handle) ∧ a.put ≠ 0
  | _ => False

/-- A file is lost only after something was handed over, an exception with a
text comes only after `EndOfRequest`, and what is answered with nothing handed
over has a status other than `OK`. -/
def CarefulStep (s : State) : Step → Prop
  | .call c => Call.LosesFile c → s.reply.passed ≠ []
  | .returns => True
  | .raises e => e.toString ≠ [] ∧ s.ended = true
  | .wakes => s.reply.passed = [] → s.reply.status ≠ OK

/-- Every step taken is careful. -/
def Careful (D : Delegate) (uri : WString) (s : State) (steps : List Step) : Prop :=
  ∀ done t, done ++ [t] <+: steps → ∀ s', run D uri s done = some s' → (step D uri s' t).isSome → CarefulStep s' t

/-! ## What a call hands over -/

/-- `w'` comes after `c` on `w`: nothing done, a brigade handed over, or a file
lost. -/
inductive Outcome (c : Call) (w w' : Reply) : Prop
  | kept (hc : ¬ Call.LosesFile c) (hp : w'.passed = w.passed) (hb : w'.body_sent = w.body_sent)
  | handed (hc : ¬ Call.LosesFile c) (hp : w'.passed ≠ []) (hb : w'.body_sent = true)
  | lost (hc : Call.LosesFile c) (hp : w'.passed = w.passed) (hb : w'.body_sent = true)

theorem logRequestError_sent (w : Reply) (msg : WString) : (logRequestError w msg).2.passed = w.passed ∧
    (logRequestError w msg).2.body_sent = w.body_sent ∧ (logRequestError w msg).2.status = w.status := by
  unfold logRequestError
  split <;> exact ⟨rfl, rfl, rfl⟩

/-- A failure is logged, and changes neither the brigades nor the flag. -/
theorem logged_sent (w : Reply) (rv : Int) (msg : WString) :
    (if rv ≠ 0 then logRequestError w msg else (.ok (), w)).2.passed = w.passed ∧
      (if rv ≠ 0 then logRequestError w msg else (.ok (), w)).2.body_sent = w.body_sent := by
  split
  · exact ⟨(logRequestError_sent w msg).1, (logRequestError_sent w msg).2.1⟩
  · exact ⟨rfl, rfl⟩

theorem memory_outcome {c : Call} (hc : ¬ Call.LosesFile c) (w : Reply) (data : Bytes) (rv : Int) :
    Outcome c w (sendResponseFromMemory w data rv).2 := by
  unfold sendResponseFromMemory
  split
  · exact .kept hc rfl rfl
  · obtain ⟨hp, hb⟩ := logged_sent { w.pass [.transient data, .flush] with body_sent := true } rv
      (wlit "SendResponseFromMemory: failure")
    refine .handed hc (fun he => ?_) hb
    rw [hp] at he
    simp [Reply.pass] at he

/-- With a length, a brigade comes out unless `apr_os_file_put` fails. -/
theorem brigade_none_iff (size : Int) (a : FileAnswers) (handle : Nat) (offset : Int) {length : Int} (h : length ≠ 0) :
    (internalResponseFromFile size a handle offset length).1 = none ↔ a.put ≠ 0 := by
  unfold internalResponseFromFile
  by_cases hput : a.put = 0 <;> simp [hput, h]

theorem file_outcome {c : Call} (w : Reply) (size : Int) {a : FileAnswers} (hc : Call.LosesFile c ↔ a.put ≠ 0)
    (handle : Nat) (offset : Int) {length : Int} (h : length ≠ 0) :
    Outcome c w (sendResponseFromFile w size a handle offset length).2 := by
  have hnone := hc.trans (brigade_none_iff size a handle offset h).symm
  unfold sendResponseFromFile
  rw [if_neg h]
  dsimp only
  cases hbb : (internalResponseFromFile size a handle offset length).1 with
  | none =>
    obtain ⟨hp, hb⟩ := logged_sent { w with body_sent := true }
      (internalResponseFromFile size a handle offset length).2 (wlit "SendResponseFromFile: failure")
    exact .lost (hnone.mpr hbb) hp hb
  | some bb =>
    obtain ⟨hp, hb⟩ := logged_sent { w.pass bb with body_sent := true }
      (internalResponseFromFile size a handle offset length).2 (wlit "SendResponseFromFile: failure")
    refine .handed (fun hl => by rw [hnone.mp hl] at hbb; cases hbb) (fun he => ?_) hb
    rw [hp] at he
    simp [Reply.pass] at he

theorem call_outcome (D : Delegate) {w : Reply} (h : w.eosnCallback = none) (c : Call) : Outcome c w (c.run D w).2 := by
  cases c with
  | setEndOfSendNotification callback extraData => exact .kept id rfl rfl
  | sendStatus code desc tail =>
    refine .kept id ?_ ?_ <;> (unfold Call.run sendStatus; dsimp only; split <;> rfl)
  | sendKnownResponseHeader index value =>
    refine .kept id ?_ ?_ <;> (unfold Call.run sendHeader; dsimp only; split <;> rfl)
  | sendUnknownResponseHeader name value =>
    refine .kept id ?_ ?_ <;> (unfold Call.run sendHeader; dsimp only; split <;> rfl)
  | sendCalculatedContentLength n => exact .kept id rfl rfl
  | sendResponseFromMemory data rv => exact memory_outcome id w data rv
  | sendResponseFromArray data length rv =>
    unfold Call.run sendResponseFromArray
    dsimp only
    split
    · exact .kept id rfl rfl
    · split
      · exact .kept id rfl rfl
      · exact memory_outcome id w _ rv
  | sendResponseFromFile size a handle offset length =>
    by_cases hl : length = 0
    · unfold Call.run Completion.sendResponseFromFile
      dsimp only
      rw [if_pos hl]
      exact .kept (fun hc => hc.1 hl) rfl rfl
    · have hlost : Call.LosesFile (.sendResponseFromFile size a handle offset length) ↔ a.put ≠ 0 :=
        ⟨And.right, fun hput => ⟨hl, hput⟩⟩
      exact file_outcome w size hlost handle offset hl
  | sendResponseFromNamedFile size a stream offset length =>
    unfold Call.run sendResponseFromNamedFile
    dsimp only
    split
    · rename_i hl
      exact .kept (fun hc => hc.1 hl) rfl rfl
    · rename_i hl
      split
      · exact .kept (fun hc => by obtain ⟨-, ⟨handle, he⟩, -⟩ := hc; cases he) rfl rfl
      · rename_i handle
        have hlost : Call.LosesFile (.sendResponseFromNamedFile size a (.ok handle) offset length) ↔ a.put ≠ 0 :=
          ⟨fun hc => hc.2.2, fun hput => ⟨hl, ⟨handle, rfl⟩, hput⟩⟩
        exact file_outcome w size hlost handle offset hl
  | flushResponse finalFlush =>
    cases finalFlush with
    | false => exact .kept id rfl rfl
    | true =>
      show Outcome _ w (flushResponse D w true).2
      rw [flushResponse_empty D h]
      exact .handed id (by simp [Reply.pass]) rfl
  | endOfRequest =>
    show Outcome _ w (endOfRequest D w).2
    rw [endOfRequest_empty D h]
    exact .kept id rfl rfl
  | closeConnection => exact .kept id rfl rfl

/-- A call keeps the flag true unless it loses a file with nothing handed over. -/
theorem headers_call_iff (D : Delegate) {w : Reply} (h : w.eosnCallback = none)
    (hw : headersSent w = true ↔ w.passed ≠ []) (c : Call) :
    (headersSent (c.run D w).2 = true ↔ (c.run D w).2.passed ≠ []) ↔ (Call.LosesFile c → w.passed ≠ []) := by
  unfold headersSent at *
  rcases call_outcome D h c with ⟨hc, hp, hb⟩ | ⟨hc, hp, hb⟩ | ⟨hc, hp, hb⟩
  · rw [hp, hb]
    exact ⟨fun _ hl => absurd hl hc, fun _ => hw⟩
  · exact ⟨fun _ hl => absurd hl hc, fun _ => ⟨fun _ => hp, fun _ => hb⟩⟩
  · rw [hp, hb]
    exact ⟨fun ht _ => ht.mp rfl, fun hl => ⟨fun _ => hl hc, fun _ => rfl⟩⟩

/-- `w'` has handed over what `w` has, and has status 500 if that is nothing. -/
structure Failed (w w' : Reply) : Prop where
  passed : w'.passed = w.passed
  body_sent : w'.body_sent = w.body_sent
  status : w.body_sent = false → w'.status = 500

theorem Failed.log {w w' : Reply} (h : Failed w w') (msg : WString) : Failed w (logRequestError w' msg).2 := by
  obtain ⟨hp, hb, hs⟩ := logRequestError_sent w' msg
  exact ⟨hp.trans h.passed, hb.trans h.body_sent, fun hno => hs.trans (h.status hno)⟩

theorem catchException_failed (uri : WString) (w : Reply) (e : Exn) : Failed w (catchException uri w e).2 := by
  have hset : Failed w (if !w.body_sent then { w with status := 500, status_line := .standard 500 } else w) := by
    split
    · exact ⟨rfl, rfl, fun _ => rfl⟩
    · rename_i hb; exact ⟨rfl, rfl, fun hno => absurd hno (by simpa using hb)⟩
  have hlog := hset.log (wlit "ProcessRequest: fatal exception processing request " ++ uri ++
    wlit " exception follows;")
  unfold catchException
  dsimp only
  split
  · rename_i e' w' heq
    rw [heq] at hlog
    exact hlog
  · rename_i w' heq
    rw [heq] at hlog
    exact hlog.log e.toString

/-! ## The end of the request -/

/-- After the steps `done`: ASP.NET is through when `Handler` has returned or
an exception was raised, and the status is what it should be. -/
structure Settled (done : List Step) (s : State) : Prop where
  owes : s.asp = .owes → s.ended = false
  returned : ∀ status, s.handler = .returned status → s.asp = .through ∧ status = handlerStatus s.reply
  exception : ∀ e, .raises e ∈ done → s.asp = .through ∧ (s.reply.body_sent = false → s.reply.status = 500)

section
variable {D : Delegate} {uri : WString} {done : List Step} {s s' : State} {t : Step}

/-- Only a step that raises adds an exception. -/
theorem raises_of_snoc (ht : ∀ e, t ≠ .raises e) {e : Exn} (h : Step.raises e ∈ done ++ [t]) : .raises e ∈ done :=
  (List.mem_append.mp h).resolve_right fun he => ht e (List.mem_singleton.mp he).symm

/-- The wait ends with the event set: ASP.NET is through. -/
theorem through_of_woken (hi : Inv done s) (h : Settled done s) (hs : step D uri s .wakes = some s') :
    s.asp = .through := by
  unfold step at hs
  dsimp only at hs
  split at hs
  · rename_i hw
    have hend : s.ended = true := hi.event.symm.trans hw.2
    cases ha : s.asp with
    | running => exact absurd ((hi.processing_iff.mpr ha).symm.trans hw.1) (by simp)
    | owes => rw [h.owes ha] at hend; cases hend
    | through => rfl
  · cases hs

theorem step_settled (hi : Inv done s) (h : Settled done s) (hs : step D uri s t = some s') :
    Settled (done ++ [t]) s' := by
  cases stepped hs with
  | @running c hr =>
    have hp := hi.processing_iff.mpr hr
    refine ⟨fun ho => ?_, fun status hret => ?_, fun e he => ?_⟩
    · rw [hr] at ho; cases ho
    · rw [hp] at hret; cases hret
    · have := (h.exception e (raises_of_snoc (by simp) he)).1
      rw [hr] at this; cases this
  | @owing c ho =>
    refine ⟨fun hc => ?_, fun status hret => ?_, fun e he => ?_⟩
    · dsimp only at hc ⊢
      split at hc
      · cases hc
      · rename_i hend
        rw [h.owes ho, Bool.eq_false_iff.mpr hend]; rfl
    · have := (h.returned status hret).1
      rw [ho] at this; cases this
    · have := (h.exception e (raises_of_snoc (by simp) he)).1
      rw [ho] at this; cases this
  | returned hp =>
    refine ⟨fun hc => ?_, fun status hret => ?_, fun e he => ?_⟩
    · dsimp only at hc ⊢
      split at hc
      · cases hc
      · rename_i hend; exact Bool.eq_false_iff.mpr hend
    · cases hret
    · have := (h.exception e (raises_of_snoc (by simp) he)).1
      rw [hi.processing_iff.mp hp] at this; cases this
  | @caught e hp htext =>
    have hfail := catchException_failed uri s.reply e
    exact ⟨fun hc => (by cases hc), fun status hret => (by cases hret),
      fun _ _ => ⟨rfl, fun hno => hfail.status (hfail.body_sent.symm.trans hno)⟩⟩
  | @raised e e' hp htext =>
    have hfail := catchException_failed uri s.reply e
    exact ⟨fun hc => (by cases hc), fun status hret => (by cases hret),
      fun _ _ => ⟨rfl, fun hno => hfail.status (hfail.body_sent.symm.trans hno)⟩⟩
  | woken hw =>
    refine ⟨h.owes, fun status hret => ?_, fun e he => h.exception e (raises_of_snoc (by simp) he)⟩
    have hthrough := through_of_woken hi h hs
    cases hret
    exact ⟨hthrough, rfl⟩

/-! ## A step -/

theorem step_truthful_iff (hi : Inv done s) (hset : Settled done s) (h : Truthful done s)
    (hs : step D uri s t = some s') : Truthful (done ++ [t]) s' ↔ CarefulStep s t := by
  have hi' := step_inv hi hs
  have hset' := step_settled hi hset hs
  cases stepped hs with
  | @running c hr =>
    have hp := hi.processing_iff.mpr hr
    refine Iff.trans ⟨Truthful.headers, fun hh => ?_⟩ (headers_call_iff D hi.slot h.headers c)
    have hno : ∀ status, s.handler ≠ .returned status := fun status hret => by rw [hp] at hret; cases hret
    exact ⟨hh, fun status hret => absurd hret (hno status), fun status hret => absurd hret (hno status),
      fun status e hret => absurd hret (hno status), h.returns.1, fun hw => by rw [hp] at hw; cases hw⟩
  | @owing c ho =>
    refine Iff.trans ⟨Truthful.headers, fun hh => ?_⟩ (headers_call_iff D hi.slot h.headers c)
    have hno : ∀ status, s.handler ≠ .returned status := fun status hret => by
      have := (hset.returned status hret).1
      rw [ho] at this; cases this
    refine ⟨hh, fun status hret => absurd hret (hno status), fun status hret => absurd hret (hno status),
      fun status e hret => absurd hret (hno status), h.returns.1, fun _ hthrough => ?_⟩
    -- ASP.NET is through after its `EndOfRequest` only
    rw [hi'.event]
    dsimp only at hthrough ⊢
    split at hthrough
    · rename_i hend; rw [hend, Bool.or_true]
    · cases hthrough
  | returned hp =>
    refine ⟨fun _ => trivial, fun _ => ⟨h.headers, fun status hret => (by cases hret), fun status hret => (by cases hret),
      fun status e hret => (by cases hret), fun e he => (by cases he), fun _ hthrough => ?_⟩⟩
    rw [hi'.event]
    dsimp only at hthrough ⊢
    split at hthrough
    · assumption
    · cases hthrough
  | @caught e hp htext =>
    have hfail := catchException_failed uri s.reply e
    constructor
    · intro h'
      exact ⟨htext, (hi'.event).symm.trans (h'.returns.2 rfl rfl)⟩
    · rintro ⟨-, hend⟩
      refine ⟨?_, fun status hret => (by cases hret), fun status hret => (by cases hret),
        fun status e hret => (by cases hret), fun e he => (by cases he), fun _ _ => hi'.event.trans hend⟩
      unfold headersSent
      rw [hfail.body_sent, hfail.passed]
      exact h.headers
  | @raised e e' hp htext => exact ⟨fun h' => absurd rfl (h'.returns.1 e'), fun hc => absurd htext hc.1⟩
  | woken hw =>
    have hstatus : s.reply.passed = [] → handlerStatus s.reply = s.reply.status := fun hp => by
      have : s.reply.body_sent = false := Bool.eq_false_iff.mpr fun hb => h.headers.mp hb hp
      simp [handlerStatus, this]
    have hok : s.reply.passed ≠ [] → handlerStatus s.reply = OK := fun hp => by
      have : s.reply.body_sent = true := h.headers.mpr hp
      simp [handlerStatus, this]
    constructor
    · intro h' hp hzero
      exact (h'.ok _ rfl).mp ((hstatus hp).trans hzero) hp
    · intro hc
      refine ⟨h.headers, ?ok, ?status, ?exception, fun e he => (by cases he), fun he => (by cases he)⟩
      case ok =>
        intro status hret
        cases hret
        exact ⟨fun hzero hp => hc hp ((hstatus hp).symm.trans hzero), hok⟩
      case status =>
        intro status hret hp
        cases hret
        exact hstatus hp
      case exception =>
        intro status e hret he hp
        cases hret
        have hno : s.reply.body_sent = false := Bool.eq_false_iff.mpr fun hb => h.headers.mp hb hp
        exact (hstatus hp).trans ((hset'.exception e he).2 hno)

/-! ## Runs -/

theorem run_settled (hi : Inv [] s) (h : Settled [] s) (done : List Step) {s' : State}
    (hr : run D uri s done = some s') : Settled done s' :=
  run_rule h (fun h₁ hset ht => step_settled (run_inv hi _ h₁) hset ht) done hr

theorem run_truthful {steps : List Step} (hi : Inv [] s) (hset : Settled [] s) (h : Truthful [] s)
    (hc : Careful D uri s steps) : AlwaysTruthful D uri s steps := by
  intro done hpre s' hr
  refine run_rule (P := fun done s' => done <+: steps → Truthful done s') (fun _ => h) ?_ done hr hpre
  intro done t s₁ s' h₁ htrue ht hpre
  have hbefore := htrue ((List.prefix_append done [t]).trans hpre)
  have hcareful := hc done t hpre s₁ h₁ (by rw [ht]; rfl)
  exact (step_truthful_iff (run_inv hi done h₁) (run_settled hi hset done h₁) hbefore ht).mpr hcareful

theorem careful_of_truthful {steps : List Step} (hi : Inv [] s) (hset : Settled [] s)
    (h : AlwaysTruthful D uri s steps) : Careful D uri s steps := by
  intro done t hpre s₁ h₁ hsome
  obtain ⟨s', ht⟩ := Option.isSome_iff_exists.mp hsome
  have hrun : run D uri s (done ++ [t]) = some s' := by
    rw [run_append, h₁]
    simp [run, ht]
  have hbefore := h done ((List.prefix_append done [t]).trans hpre) s₁ h₁
  exact (step_truthful_iff (run_inv hi done h₁) (run_settled hi hset done h₁) hbefore ht).mp (h _ hpre s' hrun)

section
variable (status : Int) (line : StatusLine) (headers : Headers.Response)

theorem processing_inv : Inv [] (processing (newReply status line headers)) :=
  ⟨rfl, by simp [processing], rfl, by simp [processing]⟩

theorem processing_settled : Settled [] (processing (newReply status line headers)) :=
  ⟨fun h => (by cases h), fun _ h => (by cases h), fun _ h => (by cases h)⟩

theorem processing_truthful : Truthful [] (processing (newReply status line headers)) where
  headers := by simp [processing, newReply, headersSent]
  ok := fun _ h => by cases h
  status := fun _ h => by cases h
  exception := fun _ _ h => by cases h
  returns := ⟨fun _ h => (by cases h), fun h => (by cases h)⟩

end

end

/-- For every request, every behaviour of the callbacks and every run after the
preread: the answers are true in every state exactly when every step taken is
careful. -/
theorem answers_truthful_iff (D : Delegate) (uri : WString) (status : Int) (line : StatusLine)
    (headers : Headers.Response) (steps : List Step) :
    AlwaysTruthful D uri (processing (newReply status line headers)) steps ↔
      Careful D uri (processing (newReply status line headers)) steps :=
  ⟨careful_of_truthful (processing_inv status line headers) (processing_settled status line headers),
    run_truthful (processing_inv status line headers) (processing_settled status line headers)
      (processing_truthful status line headers)⟩

/-- The only file is lost, and `Handler` returns `OK`. -/
theorem lost_file_answered : ¬ ∀ (D : Delegate) (uri : WString) (status : Int) (line : StatusLine)
    (headers : Headers.Response) (steps : List Step),
    AlwaysTruthful D uri (processing (newReply status line headers)) steps := by
  intro h
  have hlost := h (fun _ _ w => (.ok (), w)) (wlit "/app/a.aspx") 200 (.standard 200) ⟨none, []⟩
    [.call (.sendResponseFromFile 0 ⟨70023, 0, 0, 0⟩ 8 0 100), .returns, .call .endOfRequest, .wakes] _
    (List.prefix_refl _) _ rfl
  exact (hlost.ok OK rfl).mp rfl rfl

end ModAspNet.L5.Answers
