import ModAspNet.L5Worker.ResponseBody

/-!
# What `HandleRequest` answers

`Host::HandleRequest` makes the worker of a request and runs its `Handler`; an
exception that comes out is logged and answered with 500. The factory gets the
status across the boundary of the application domain, and the handler passes it
on to httpd.

* `run_sends`, `run_status`: what a call does to the flag and the status.
* `step_tells`: what the steps taken so far say about them (`Tells`).
* `host_answers`: when `Handler` is over, `HandleRequest` returns; the status is a
  function of the steps alone, and a 500 is ASP.NET's own or in the log.
-/
namespace ModAspNet.L5.HostAnswer

open ModAspNet.L1.CStr ModAspNet.L1.Managed
open ModAspNet.L5.Body (InputFilters handlerPreread newWorker)
open ModAspNet.L5.Completion ModAspNet.L5.HandlerRun
open ModAspNet.L5.ResponseBody (calls calls_call calls_other)
open ModAspNet.L5.Answers (logged_sent catchException_failed raises_of_snoc Settled step_settled through_of_woken)

/-! ## `HandleRequest` -/

/-- The catch clause. mirrors Apache.Web/Host.h:119-126 -/
def failedRequest (w : Reply) (e : Exn) : Except Exn Int × Reply :=
  match logRequestError w (wlit "Failed to create ASP.NET Request, Exception follows") with
  | (.error e', w') => (.error e', w')
  | (.ok (), w') =>
    match logRequestError w' e.toString with
    | (.error e', w'') => (.error e', w'')
    | (.ok (), w'') => (.ok 500, w'')

/-- Once `Handler` has ended. mirrors Apache.Web/Host.h:112-127 -/
def handleRequest (s : State) : Option (Except Exn Int × Reply) :=
  match s.handler with
  | .returned status => some (.ok status, s.reply)
  | .raised e => some (failedRequest s.reply e)
  | _ => none

/-! ## The status as a function of the steps -/

/-- The call hands something to the output filters, or means to. -/
def Call.sends : Call → Bool
  | .sendResponseFromMemory data _ => data.length ≠ 0
  | .sendResponseFromArray data length _ => length ≠ 0 ∧ data ≠ []
  | .sendResponseFromFile _ _ _ _ length => length ≠ 0
  | .sendResponseFromNamedFile _ _ (.ok _) _ length => length ≠ 0
  | .flushResponse finalFlush => finalFlush
  | _ => false

/-- The status a call sets. -/
def Call.status : Call → Option Int
  | .sendStatus statusCode _ _ => some statusCode
  | _ => none

/-- `rr->status` after some calls. -/
def statusAfter (status : Int) (cs : List Call) : Int := cs.foldl (fun status c => (Call.status c).getD status) status

def Step.isRaise : Step → Bool
  | .raises _ => true
  | _ => false

/-- An exception without a text, which `Handler` cannot log. -/
def Step.isBlank : Step → Bool
  | .raises e => e.toString = []
  | _ => false

/-- The status `HandleRequest` returns; `status` is httpd's, from before. -/
def answer (prereadFails : Bool) (status : Int) (done : List Step) : Int :=
  if prereadFails || done.any Step.isBlank then 500
  else if (calls done).any Call.sends then OK
  else if done.any Step.isRaise then 500
  else statusAfter status (calls done)

/-- The line logged for an exception that leaves `ProcessRequest`. -/
def fatal (uri : WString) : WString :=
  wlit "ProcessRequest: fatal exception processing request " ++ uri ++ wlit " exception follows;"

/-! ## A call -/

theorem statusAfter_snoc (status : Int) (cs : List Call) (c : Call) :
    statusAfter status (cs ++ [c]) = (Call.status c).getD (statusAfter status cs) := by
  simp [statusAfter]

theorem logged_status (w : Reply) (rv : Int) (msg : WString) :
    (if rv ≠ 0 then logRequestError w msg else (.ok (), w)).2.status = w.status := by
  split
  · exact (Answers.logRequestError_sent w msg).2.2
  · rfl

theorem memory_sends (w : Reply) (data : Bytes) (rv : Int) :
    (sendResponseFromMemory w data rv).2.body_sent = (w.body_sent || decide (data.length ≠ 0)) ∧
      (sendResponseFromMemory w data rv).2.status = w.status := by
  unfold sendResponseFromMemory
  by_cases h : data.length = 0
  · rw [if_pos h]
    simp [h]
  · rw [if_neg h]
    refine ⟨?_, logged_status _ rv _⟩
    rw [(logged_sent _ rv _).2]
    simp [h]

theorem file_sends (w : Reply) (finfoSize : Int) (a : FileAnswers) (handle : Nat) (offset length : Int) :
    (sendResponseFromFile w finfoSize a handle offset length).2.body_sent = (w.body_sent || decide (length ≠ 0)) ∧
      (sendResponseFromFile w finfoSize a handle offset length).2.status = w.status := by
  unfold sendResponseFromFile
  by_cases h : length = 0
  · rw [if_pos h]
    simp [h]
  · rw [if_neg h]
    refine ⟨?_, (logged_status _ _ _).trans ?_⟩
    · rw [(logged_sent _ _ _).2]
      simp [h]
    · cases (internalResponseFromFile finfoSize a handle offset length).1 <;> rfl

/-- With an empty slot of the callback: the flag and the status after a call. -/
theorem run_sends (D : Delegate) {w : Reply} (h : w.eosnCallback = none) (c : Call) :
    (c.run D w).2.body_sent = (w.body_sent || Call.sends c) ∧
      (c.run D w).2.status = (Call.status c).getD w.status := by
  cases c with
  | sendStatus code desc tail =>
    unfold Call.run sendStatus
    dsimp only
    split <;> exact ⟨(Bool.or_false _).symm, rfl⟩
  | sendKnownResponseHeader index value =>
    unfold Call.run sendHeader
    dsimp only
    split <;> exact ⟨(Bool.or_false _).symm, rfl⟩
  | sendUnknownResponseHeader name value =>
    unfold Call.run sendHeader
    dsimp only
    split <;> exact ⟨(Bool.or_false _).symm, rfl⟩
  | sendResponseFromMemory data rv => exact memory_sends w data rv
  | sendResponseFromArray data length rv =>
    unfold Call.run sendResponseFromArray Call.sends
    dsimp only
    by_cases hlen : length = 0
    · simp [hlen, Call.status]
    by_cases hdata : data = []
    · simp [hdata, hlen, Call.status]
    rw [if_neg hlen, if_neg hdata]
    obtain ⟨hsent, hstatus⟩ := memory_sends w (data.take length) rv
    refine ⟨?_, hstatus⟩
    rw [hsent]
    simp [hlen, hdata]
  | sendResponseFromFile finfoSize a handle offset length => exact file_sends w finfoSize a handle offset length
  | sendResponseFromNamedFile finfoSize a stream offset length =>
    unfold Call.run sendResponseFromNamedFile
    dsimp only
    cases stream with
    | error e => split <;> exact ⟨(Bool.or_false _).symm, rfl⟩
    | ok handle =>
      split
      · rename_i hlen
        simp [Call.sends, Call.status, hlen]
      · exact file_sends w finfoSize a handle offset length
  | flushResponse finalFlush =>
    cases finalFlush with
    | true =>
      show (flushResponse D w true).2.body_sent = _ ∧ (flushResponse D w true).2.status = _
      rw [flushResponse_empty D h]
      exact ⟨(Bool.or_true _).symm, rfl⟩
    | false => exact ⟨(Bool.or_false _).symm, rfl⟩
  | endOfRequest =>
    show (endOfRequest D w).2.body_sent = _ ∧ (endOfRequest D w).2.status = _
    rw [endOfRequest_empty D h]
    exact ⟨(Bool.or_false _).symm, rfl⟩
  | setEndOfSendNotification callback extraData => exact ⟨(Bool.or_false _).symm, rfl⟩
  | sendCalculatedContentLength n => exact ⟨(Bool.or_false _).symm, rfl⟩
  | closeConnection => exact ⟨(Bool.or_false _).symm, rfl⟩

/-! ## A step -/

/-- What the steps `done` say about the state they lead to. -/
structure Tells (uri : WString) (status : Int) (done : List Step) (s : State) : Prop where
  sent : s.reply.body_sent = (calls done).any Call.sends
  status : done.any Step.isRaise = false → s.reply.status = statusAfter status (calls done)
  told : done.any Step.isRaise = true → fatal uri ∈ s.reply.log
  processing : s.handler = .processing → done.any Step.isRaise = false
  raised : ∀ e, s.handler = .raised e → e = .IndexOutOfRangeException ∧ done.any Step.isBlank = true
  stayed : (∀ e, s.handler ≠ .raised e) → done.any Step.isBlank = false

section
variable {D : Delegate} {uri : WString} {status : Int} {done : List Step} {s s' : State} {t : Step}

theorem any_snoc (f : Step → Bool) (done : List Step) (t : Step) : (done ++ [t]).any f = (done.any f || f t) := by
  simp [List.any_append]

/-- A call is made only while nothing was raised. -/
theorem unraised_of_call (hi : Inv done s) (hset : Settled done s) (h : Tells uri status done s)
    (hasp : s.asp = .running ∨ s.asp = .owes) : done.any Step.isRaise = false := by
  rcases hasp with hr | ho
  · exact h.processing (hi.processing_iff.mpr hr)
  · by_contra hne
    rw [Bool.not_eq_false] at hne
    obtain ⟨t, ht, hraises⟩ := List.any_eq_true.mp hne
    cases t with
    | raises e => rw [(hset.exception e ht).1] at ho; cases ho
    | _ => cases hraises

/-- A call: nothing else has changed. -/
theorem Tells.call (hi : Inv done s) (hset : Settled done s) (h : Tells uri status done s)
    (hasp : s.asp = .running ∨ s.asp = .owes) (c : Call) (asp : Asp) (ended : Bool) :
    Tells uri status (done ++ [.call c]) ⟨s.handler, asp, ended, (c.run D s.reply).2⟩ := by
  have hno := unraised_of_call hi hset h hasp
  obtain ⟨hsent, hstatus⟩ := run_sends D hi.slot c
  have hraises : (done ++ [Step.call c]).any Step.isRaise = false := by rw [any_snoc, hno]; rfl
  refine ⟨?_, fun _ => ?_, fun ht => ?_, fun _ => hraises, fun e he => ?_, fun hst => ?_⟩
  · show (c.run D s.reply).2.body_sent = _
    rw [hsent, h.sent, calls_call]
    simp [List.any_append]
  · show (c.run D s.reply).2.status = _
    rw [hstatus, h.status hno, calls_call, statusAfter_snoc]
  · rw [hraises] at ht; cases ht
  · obtain ⟨rfl, hblank⟩ := h.raised e he
    exact ⟨rfl, by rw [any_snoc, hblank]; rfl⟩
  · rw [any_snoc, h.stayed hst]; rfl

/-- The catch clause logs its first line, and raises only what that line's
fellow raises. -/
theorem catchException_tells (uri : WString) (w : Reply) (e : Exn) : fatal uri ∈ (catchException uri w e).2.log ∧
    ∀ e', (catchException uri w e).1 = .error e' → e' = .IndexOutOfRangeException := by
  unfold catchException
  dsimp only
  rw [show wlit "ProcessRequest: fatal exception processing request " ++ uri ++ wlit " exception follows;" = fatal uri
    from rfl]
  have hne : fatal uri ≠ [] := by simp [fatal, wlit]
  rw [logRequestError, if_neg hne]
  dsimp only
  unfold logRequestError
  split
  · exact ⟨by simp, fun e' he => (Except.error.inj he).symm⟩
  · exact ⟨by simp, fun e' he => (by cases he)⟩

theorem step_tells (hi : Inv done s) (hset : Settled done s) (h : Tells uri status done s)
    (hs : step D uri s t = some s') : Tells uri status (done ++ [t]) s' := by
  cases t with
  | call c =>
    cases stepped hs with
    | running hr => exact h.call hi hset (.inl hr) c _ _
    | owing ho => exact h.call hi hset (.inr ho) c _ _
  | returns =>
    cases stepped hs with
    | returned hp =>
      have hno := h.processing hp
      refine ⟨?_, fun _ => ?_, fun ht => ?_, nofun, nofun, fun _ => ?_⟩
      · rw [calls_other done (by simp)]; exact h.sent
      · rw [calls_other done (by simp)]; exact h.status hno
      · rw [any_snoc, hno] at ht; cases ht
      · rw [any_snoc, h.stayed (by rw [hp]; nofun)]; rfl
  | raises e =>
    obtain ⟨hlog, hexn⟩ := catchException_tells uri s.reply e
    have hfail := catchException_failed uri s.reply e
    have hraised : (done ++ [Step.raises e]).any Step.isRaise = true := by rw [any_snoc]; exact Bool.or_true _
    have hsent : (catchException uri s.reply e).2.body_sent = (calls (done ++ [Step.raises e])).any Call.sends := by
      rw [calls_other done (by simp), hfail.body_sent]
      exact h.sent
    have hok := catchException_ok_iff uri s.reply e
    unfold step at hs
    dsimp only at hs
    split at hs
    · rename_i hp
      split at hs
      · rename_i e' w heq
        rw [heq] at hlog hexn hsent hok
        cases hs
        have hblank : e.toString = [] := not_not.mp (mt hok.mpr (by simp))
        have hany : (done ++ [Step.raises e]).any Step.isBlank = true := by
          rw [any_snoc]
          simp [Step.isBlank, hblank]
        refine ⟨hsent, fun hno => ?_, fun _ => hlog, nofun, fun e'' he => ?_, fun hst => absurd rfl (hst e')⟩
        · rw [hraised] at hno; cases hno
        · cases he; exact ⟨hexn e' rfl, hany⟩
      · rename_i w heq
        rw [heq] at hlog hsent hok
        cases hs
        refine ⟨hsent, fun hno => ?_, fun _ => hlog, nofun, nofun, fun _ => ?_⟩
        · rw [hraised] at hno; cases hno
        · rw [any_snoc, h.stayed (by rw [hp]; nofun)]
          simp [Step.isBlank, hok.mp rfl]
    · cases hs
  | wakes =>
    cases stepped hs with
    | woken hw =>
      refine ⟨?_, fun hno => ?_, fun ht => ?_, nofun, nofun, fun _ => ?_⟩
      · rw [calls_other done (by simp)]; exact h.sent
      · rw [any_snoc, Bool.or_eq_false_iff] at hno
        rw [calls_other done (by simp)]
        exact h.status hno.1
      · rw [any_snoc] at ht
        exact h.told ((Bool.or_eq_true _ _ ▸ ht).resolve_right nofun)
      · rw [any_snoc, h.stayed (by rw [hw]; nofun)]; rfl

/-! ## The end -/

theorem failedRequest_answers (w : Reply) {e : Exn} (he : e.toString ≠ []) :
    ∃ w', failedRequest w e = (.ok 500, w') ∧ w.log <+: w'.log := by
  refine ⟨{ w with log := w.log ++ [wlit "Failed to create ASP.NET Request, Exception follows"] ++ [e.toString] }, ?_, ?_⟩
  · unfold failedRequest logRequestError
    rw [if_neg (by simp [wlit])]
    dsimp only
    rw [if_neg he]
  · dsimp only
    rw [List.append_assoc]
    exact List.prefix_append _ _

/-- When `Handler` has ended. -/
theorem ended_answers (hset : Settled done s) (h : Tells uri status done s) {r : Except Exn Int} {w : Reply}
    (hend : handleRequest s = some (r, w)) :
    r = .ok (answer false status done) ∧
      (r = .ok 500 → fatal uri ∈ w.log ∨ statusAfter status (calls done) = 500) := by
  unfold handleRequest at hend
  split at hend
  · rename_i n hn
    cases hend
    obtain ⟨-, hstatus⟩ := hset.returned n hn
    have hblank := h.stayed (by rw [hn]; nofun)
    have hanswer : n = answer false status done := by
      rw [hstatus, handlerStatus, answer, hblank, h.sent]
      cases hsends : (calls done).any Call.sends with
      | true => rfl
      | false =>
        show s.reply.status = if done.any Step.isRaise then 500 else statusAfter status (calls done)
        cases hraises : done.any Step.isRaise with
        | false => exact h.status hraises
        | true =>
          obtain ⟨t, ht, hraise⟩ := List.any_eq_true.mp hraises
          cases t with
          | raises e => exact (hset.exception e ht).2 (h.sent.trans hsends)
          | _ => cases hraise
    refine ⟨congrArg _ hanswer, fun h500 => ?_⟩
    cases hraises : done.any Step.isRaise with
    | true => exact .inl (h.told hraises)
    | false =>
      -- with nothing raised, 500 is the status that was set
      have heq : answer false status done = 500 := hanswer.symm.trans (Except.ok.inj h500)
      unfold answer at heq
      rw [hblank, hraises] at heq
      cases hsends : (calls done).any Call.sends with
      | true => rw [hsends] at heq; cases heq
      | false => rw [hsends] at heq; exact .inr heq
  · rename_i e he
    obtain ⟨rfl, hblank⟩ := h.raised e he
    obtain ⟨w', hw, hlog⟩ := failedRequest_answers s.reply (e := .IndexOutOfRangeException) (by decide +kernel)
    rw [hw] at hend
    cases hend
    refine ⟨?_, fun _ => .inl (hlog.subset (h.told ?_))⟩
    · unfold answer
      rw [hblank]
      rfl
    · obtain ⟨t, ht, hb⟩ := List.any_eq_true.mp hblank
      refine List.any_eq_true.mpr ⟨t, ht, ?_⟩
      cases t <;> first | rfl | cases hb
  · cases hend

end

/-- After a preread that fails, no step can be taken. -/
theorem unread_done {D : Delegate} {uri : WString} {n : Int} {w : Reply} {done : List Step} {s : State}
    (hr : run D uri ⟨.returned n, .through, false, w⟩ done = some s) : done = [] := by
  cases done with
  | nil => rfl
  | cons t done =>
    unfold run at hr
    cases t with
    | wakes => simp [step] at hr
    | _ => cases hr

/-- For every preread, every behaviour of the callbacks and every run, once
`Handler` is over: `HandleRequest` returns, and with the status that the steps
say. A 500 was set by ASP.NET or before it, or the log has a line on it. -/
theorem host_answers (D : Delegate) (uri : WString) (F : InputFilters) (st : F.State) (status : Int)
    (line : StatusLine) (headers : Headers.Response) (done : List Step) (s : State)
    (hr : run D uri (started F st (newReply status line headers)) done = some s) (r : Except Exn Int) (w : Reply)
    (hend : handleRequest s = some (r, w)) :
    r = .ok (answer (handlerPreread F st newWorker).1.isSome status done) ∧
      (r = .ok 500 → wlit "Handler: failed to preread the request body" ∈ (handlerPreread F st newWorker).2.1.log ∨
        fatal uri ∈ w.log ∨ statusAfter status (calls done) = 500) := by
  cases hpre : (handlerPreread F st newWorker).1 with
  | none =>
    rw [Answers.started_of_preread F st _ hpre] at hr
    have hi := Answers.processing_inv status line headers
    have hset := Answers.processing_settled status line headers
    have hnew : Tells uri status [] (Answers.processing (newReply status line headers)) :=
      ⟨rfl, fun _ => rfl, nofun, fun _ => rfl, nofun, fun _ => rfl⟩
    have htells : Tells uri status done s :=
      run_rule hnew (fun h₁ h ht => step_tells (run_inv hi _ h₁) (Answers.run_settled hi hset _ h₁) h ht) done hr
    obtain ⟨hanswer, hwhy⟩ := ended_answers (Answers.run_settled hi hset done hr) htells hend
    exact ⟨hanswer, fun h500 => .inr (hwhy h500)⟩
  | some n =>
    -- the preread failed: `Handler` has returned 500 before any step
    obtain ⟨hn, hlog, hstarted⟩ : n = 500 ∧
        wlit "Handler: failed to preread the request body" ∈ (handlerPreread F st newWorker).2.1.log ∧
        started F st (newReply status line headers) = ⟨.returned n, .through, false, newReply status line headers⟩ := by
      unfold started
      unfold handlerPreread at hpre ⊢
      split at hpre
      · cases hpre
        exact ⟨rfl, by simp, rfl⟩
      · cases hpre
    rw [hstarted] at hr
    obtain rfl := unread_done hr
    cases hr
    cases hend
    exact ⟨congrArg _ hn, fun _ => .inl hlog⟩

/-- A page is sent, and then `ProcessRequest` raises without a text. -/
def blankSteps : List Step :=
  [.call (.sendResponseFromMemory (lit "<p>") 0), .call .endOfRequest, .raises (.other [])]

def blankEnd : Option State :=
  run (fun _ _ w => (.ok (), w)) (wlit "/app/a.aspx") (started emptyBody () (newReply 200 (.standard 200) ⟨none, []⟩)) blankSteps

theorem blankEnd_isSome : blankEnd.isSome := by decide +kernel

theorem host_answers_blank : ∃ w, handleRequest (blankEnd.get blankEnd_isSome) = some (.ok 500, w) ∧
    fatal (wlit "/app/a.aspx") ∈ w.log := by
  obtain ⟨⟨r, w⟩, hend⟩ := Option.isSome_iff_exists.mp
    (show (handleRequest (blankEnd.get blankEnd_isSome)).isSome by decide +kernel)
  obtain ⟨hr, hwhy⟩ := host_answers _ _ _ _ _ _ _ blankSteps _ (Option.some_get blankEnd_isSome).symm r w hend
  have h500 : r = .ok 500 := hr.trans (by decide +kernel)
  refine ⟨w, by rw [hend, h500], (hwhy h500).elim (fun h => absurd h (by decide +kernel)) fun h => h.elim id fun h => ?_⟩
  exact absurd h (by decide +kernel)

end ModAspNet.L5.HostAnswer
