import ModAspNet.L5Worker.Headers

/-!
# Sending the response, and its completion

ASP.NET sends a response by calls on the `WorkerRequest` of the request: a
status, headers, data from memory or from files, each handed to the output
filters of httpd as a brigade. `FlushResponse(true)` or `EndOfRequest` ends it.
A callback registered with `SetEndOfSendNotification` is to be invoked then.

What httpd and the callbacks do enters as data: the status of each APR call,
and `Delegate`, what an invocation does to the request, the calls it makes on
it included. `invoked` records the invocations; no function reads it.

* `run_same`: what a call that completes nothing leaves alone.
* `run_slot`: no call fills the slot of the callback, so none is invoked.
* `notified_iff`: the callbacks are invoked as they should be exactly when no
  completion follows a registration.
-/
namespace ModAspNet.L5.Completion

open ModAspNet.L1.CStr ModAspNet.L1.Managed
open ModAspNet.L5

/-! ## The state -/

/-- An `EndOfSendNotification` delegate. -/
abbrev Callback := Nat

/-- An object handed over as `extraData`. -/
abbrev Obj := Nat

/-- A callback and the extra data it is invoked with, which may be null. -/
abbrev Invocation := Callback × Option Obj

inductive Exn where
  | IndexOutOfRangeException
  | other (text : WString)
  deriving DecidableEq

def Exn.toString : Exn → WString
  | .IndexOutOfRangeException => wlit "System.IndexOutOfRangeException"
  | .other text => text

/-- A bucket of the response; file buckets have an offset and a length. -/
inductive OutBucket where
  | eos
  | flush
  | transient (data : Bytes)
  | file (handle : Nat) (start length : Int)
  deriving DecidableEq

/-- `rr->status_line`: what `ap_get_status_line` has for a status, or a text. -/
inductive StatusLine where
  | standard (status : Int)
  | text (line : Bytes)
  deriving DecidableEq

/-- The fields of `WorkerRequest` and of its `request_rec` that the calls
write. `passed` has the brigades handed to `rr->output_filters`,
`wait_complete` whether the event is set. -/
structure Reply where
  status : Int
  status_line : StatusLine
  headers : Headers.Response
  passed : List (List OutBucket)
  body_sent : Bool
  eosnCallback : Option Callback
  eosnExtra : Option Obj
  wait_complete : Bool
  log : List WString
  invoked : List Invocation

/-- At the beginning: nothing was sent, and `Handler` has made the event. -/
def newReply (status : Int) (line : StatusLine) (headers : Headers.Response) : Reply where
  status := status
  status_line := line
  headers := headers
  passed := []
  body_sent := false
  eosnCallback := none
  eosnExtra := none
  wait_complete := false
  log := []
  invoked := []

abbrev Result := Except Exn Unit × Reply

/-- What `callback->Invoke(this, extra)` does. -/
abbrev Delegate := Callback → Option Obj → Reply → Result

/-! ## The functions -/

/-- A text given to `LogRequestError`, which takes the address of its first byte. -/
def logRequestError (w : Reply) (msg : WString) : Result :=
  if msg = [] then (.error .IndexOutOfRangeException, w) else (.ok (), { w with log := w.log ++ [msg] })

/-- `ap_pass_brigade(rr->output_filters, bb)` -/
def Reply.pass (w : Reply) (bb : List OutBucket) : Reply := { w with passed := w.passed ++ [bb] }

/-- `eosnCallback->Invoke(this, eosnExtra); eosnCallback = nullptr;` -/
def invokeCallback (D : Delegate) (w : Reply) (callback : Callback) : Result :=
  match D callback w.eosnExtra { w with invoked := w.invoked ++ [(callback, w.eosnExtra)] } with
  | (.error e, w') => (.error e, w')
  | (.ok (), w') => (.ok (), { w' with eosnCallback := none })

/-- mirrors Apache.Web/WorkerRequest.h:140-148 -/
def setEndOfSendNotification (w : Reply) (_callback : Callback) (_extraData : Option Obj) : Result := (.ok (), w)

/-- mirrors Apache.Web/WorkerRequest.h:150-169 -/
def endOfRequest (D : Delegate) (w : Reply) : Result :=
  match w.eosnCallback with
  | none => (.ok (), { w with wait_complete := true })
  | some callback =>
    match invokeCallback D w callback with
    | (.error e, w') => (.error e, w')
    | (.ok (), w') => (.ok (), { w' with wait_complete := true })

/-- mirrors Apache.Web/WorkerRequest.cpp:175-211 -/
def flushResponse (D : Delegate) (w : Reply) (finalFlush : Bool) : Result :=
  if finalFlush then
    let w' := { w.pass [.eos] with body_sent := true }
    match w'.eosnCallback with
    | none => (.ok (), w')
    | some callback => invokeCallback D w' callback
  else (.ok (), w)

/-- `tail` is the memory behind the encoded description, which `apr_pstrcat`
reads up to a NUL. mirrors Apache.Web/WorkerRequest.h:532-555 -/
def sendStatus (w : Reply) (statusCode : Int) (statusDescription : Option WString) (tail : Bytes) : Result :=
  let w' := { w with status := statusCode }
  match statusDescription with
  | none => (.ok (), { w' with status_line := .standard statusCode })
  | some [] => (.ok (), { w' with status_line := .standard statusCode })
  | some desc =>
    (.ok (), { w' with status_line := .text (lit (toString statusCode) ++ lit " " ++ (cstr (utf8 desc ++ tail)).val) })

/-- A header send, which raises for an empty text. -/
def sendHeader (w : Reply) (sent : Except Headers.Exn Headers.Response) : Result :=
  match sent with
  | .ok headers => (.ok (), { w with headers := headers })
  | .error .IndexOutOfRangeException => (.error .IndexOutOfRangeException, w)

/-- `rv` is the status of `ap_pass_brigade`.
mirrors Apache.Web/WorkerRequest.cpp:214-259 -/
def sendResponseFromMemory (w : Reply) (data : Bytes) (rv : Int) : Result :=
  if data.length = 0 then (.ok (), w)
  else
    let w' := { w.pass [.transient data, .flush] with body_sent := true }
    if rv ≠ 0 then logRequestError w' (wlit "SendResponseFromMemory: failure") else (.ok (), w')

/-- From an array, which has `length` bytes or more.
mirrors Apache.Web/WorkerRequest.h:625-642 -/
def sendResponseFromArray (w : Reply) (data : Bytes) (length : Nat) (rv : Int) : Result :=
  if length = 0 then (.ok (), w)
  else if data = [] then (.error .IndexOutOfRangeException, w)
  else sendResponseFromMemory w (data.take length) rv

/-- apache2_4_include/httpd.h:316 -/
def AP_MAX_SENDFILE : Int := 16777216

/-- `(apr_size_t)n`, which has 32 bits. -/
def aprSize (n : Int) : Int := n % 4294967296

/-- The copies of the first bucket, and the last one, resized.
mirrors Apache.Web/WorkerRequest.cpp:293-302 -/
def splitFile (handle : Nat) (start fsize : Int) : List OutBucket :=
  if fsize > AP_MAX_SENDFILE then
    .file handle start AP_MAX_SENDFILE :: splitFile handle (start + AP_MAX_SENDFILE) (fsize - AP_MAX_SENDFILE)
  else [.file handle start (aprSize fsize)]
termination_by fsize.toNat
decreasing_by simp only [AP_MAX_SENDFILE] at *; omega

/-- What APR answers: the statuses of `apr_os_file_put`, of
`apr_file_info_get` with the size it found, and of `ap_pass_brigade`. -/
structure FileAnswers where
  put : Int
  info : Int
  size : Int
  pass : Int

/-- The brigade passed on, if it comes to that, and the status returned.
`finfoSize` is `rr->finfo.size`. mirrors Apache.Web/WorkerRequest.cpp:262-313 -/
def internalResponseFromFile (finfoSize : Int) (a : FileAnswers) (handle : Nat) (offset length : Int) :
    Option (List OutBucket) × Int :=
  if a.put ≠ 0 then (none, a.put)
  else if length = 0 ∧ a.info ≠ 0 then (none, a.info)
  else
    let fsize := if length = 0 then a.size - offset else length
    let bb :=
      if finfoSize > AP_MAX_SENDFILE then splitFile handle offset fsize
      else [.file handle offset (aprSize fsize)]
    (some (bb ++ [.flush]), a.pass)

/-- mirrors Apache.Web/WorkerRequest.cpp:316-347 -/
def sendResponseFromFile (w : Reply) (finfoSize : Int) (a : FileAnswers) (handle : Nat) (offset length : Int) :
    Result :=
  if length = 0 then (.ok (), w)
  else
    let r := internalResponseFromFile finfoSize a handle offset length
    let passed := match r.1 with
      | some bb => w.pass bb
      | none => w
    let w' := { passed with body_sent := true }
    if r.2 ≠ 0 then logRequestError w' (wlit "SendResponseFromFile: failure") else (.ok (), w')

/-- From a file by name; `stream` is what `gcnew FileStream` gives.
mirrors Apache.Web/WorkerRequest.h:647-667 -/
def sendResponseFromNamedFile (w : Reply) (finfoSize : Int) (a : FileAnswers) (stream : Except Exn Nat)
    (offset length : Int) : Result :=
  if length = 0 then (.ok (), w)
  else match stream with
    | .error e => (.error e, w)
    | .ok handle => sendResponseFromFile w finfoSize a handle offset length

/-- `ap_set_content_length(rr, contentLength)`; mirrors Apache.Web/WorkerRequest.h:613-621 -/
def sendCalculatedContentLength (w : Reply) (contentLength : Int) : Result :=
  (.ok (), { w with headers := { w.headers with
    headers_out := Headers.aprTableSetn w.headers.headers_out (cstr (lit "Content-Length"))
      (cstr (lit (toString contentLength))) } })

/-- A no-op; mirrors Apache.Web/WorkerRequest.h:671-678 -/
def closeConnection (w : Reply) : Result := (.ok (), w)

/-! ## Sequences of calls -/

/-- A call of ASP.NET, with what APR answers to it. -/
inductive Call where
  | setEndOfSendNotification (callback : Callback) (extraData : Option Obj)
  | sendStatus (statusCode : Int) (statusDescription : Option WString) (tail : Bytes)
  | sendKnownResponseHeader (index : Int) (value : WString)
  | sendUnknownResponseHeader (name value : WString)
  | sendCalculatedContentLength (contentLength : Int)
  | sendResponseFromMemory (data : Bytes) (rv : Int)
  | sendResponseFromArray (data : Bytes) (length : Nat) (rv : Int)
  | sendResponseFromFile (finfoSize : Int) (a : FileAnswers) (handle : Nat) (offset length : Int)
  | sendResponseFromNamedFile (finfoSize : Int) (a : FileAnswers) (stream : Except Exn Nat) (offset length : Int)
  | flushResponse (finalFlush : Bool)
  | endOfRequest
  | closeConnection

def Call.run (D : Delegate) (w : Reply) : Call → Result
  | .setEndOfSendNotification callback extraData => Completion.setEndOfSendNotification w callback extraData
  | .sendStatus code desc tail => Completion.sendStatus w code desc tail
  | .sendKnownResponseHeader index value => sendHeader w (Headers.sendKnownResponseHeader w.headers index value)
  | .sendUnknownResponseHeader name value => sendHeader w (Headers.sendUnknownResponseHeader w.headers name value)
  | .sendCalculatedContentLength n => Completion.sendCalculatedContentLength w n
  | .sendResponseFromMemory data rv => Completion.sendResponseFromMemory w data rv
  | .sendResponseFromArray data length rv => Completion.sendResponseFromArray w data length rv
  | .sendResponseFromFile size a handle offset length => Completion.sendResponseFromFile w size a handle offset length
  | .sendResponseFromNamedFile size a stream offset length =>
    Completion.sendResponseFromNamedFile w size a stream offset length
  | .flushResponse finalFlush => Completion.flushResponse D w finalFlush
  | .endOfRequest => Completion.endOfRequest D w
  | .closeConnection => Completion.closeConnection w

/-- `FlushResponse(true)` or `EndOfRequest`. -/
def Call.completes : Call → Bool
  | .flushResponse finalFlush => finalFlush
  | .endOfRequest => true
  | _ => false

/-- What a call registers. -/
def Call.registers : Call → Option Invocation
  | .setEndOfSendNotification callback extraData => some (callback, extraData)
  | _ => none

/-! ## The property -/

/-- The invocations during each call of a sequence. -/
def session (D : Delegate) : Reply → List Call → List (List Invocation)
  | _, [] => []
  | w, c :: calls =>
    let after := (c.run D { w with invoked := [] }).2
    after.invoked :: session D after calls

/-- What they are to be: a registration holds until the next one, or until the
first completion, which invokes the callback once. -/
def expected : Option Invocation → List Call → List (List Invocation)
  | _, [] => []
  | slot, c :: calls =>
    match c.registers with
    | some i => [] :: expected (some i) calls
    | none => if c.completes then slot.toList :: expected none calls else [] :: expected slot calls

/-- On this request each callback is invoked exactly once, when it should be. -/
def NotifiesOnce (D : Delegate) (w : Reply) (calls : List Call) : Prop := session D w calls = expected none calls

/-- No completion follows a registration. -/
def NeverCompleted (calls : List Call) : Prop :=
  ∀ before c after, calls = before ++ c :: after → c.registers.isSome → ∀ c' ∈ after, c'.completes = false

/-! ## No call fills the slot -/

/-- `w'` has the callback, the event and the invocations of `w`. -/
structure SameNotice (w w' : Reply) : Prop where
  slot : w'.eosnCallback = w.eosnCallback
  event : w'.wait_complete = w.wait_complete
  invoked : w'.invoked = w.invoked

theorem SameNotice.refl (w : Reply) : SameNotice w w := ⟨rfl, rfl, rfl⟩

theorem SameNotice.trans {w w' w'' : Reply} (h : SameNotice w w') (h' : SameNotice w' w'') : SameNotice w w'' :=
  ⟨h'.slot.trans h.slot, h'.event.trans h.event, h'.invoked.trans h.invoked⟩

theorem logRequestError_same (w : Reply) (msg : WString) : SameNotice w (logRequestError w msg).2 := by
  unfold logRequestError
  split <;> exact ⟨rfl, rfl, rfl⟩

theorem sendHeader_same (w : Reply) (sent : Except Headers.Exn Headers.Response) :
    SameNotice w (sendHeader w sent).2 := by
  unfold sendHeader
  split <;> exact ⟨rfl, rfl, rfl⟩

/-- A brigade is passed on, and a failure logged. -/
theorem sent_same (w : Reply) (bb : Option (List OutBucket)) (rv : Int) (msg : WString) :
    SameNotice w (if rv ≠ 0 then
      logRequestError { (match bb with | some bb => w.pass bb | none => w) with body_sent := true } msg
      else (.ok (), { (match bb with | some bb => w.pass bb | none => w) with body_sent := true })).2 := by
  have hpass : SameNotice w { (match bb with | some bb => w.pass bb | none => w) with body_sent := true } := by
    cases bb <;> exact ⟨rfl, rfl, rfl⟩
  split
  · exact hpass.trans (logRequestError_same _ _)
  · exact hpass

theorem sendResponseFromMemory_same (w : Reply) (data : Bytes) (rv : Int) :
    SameNotice w (sendResponseFromMemory w data rv).2 := by
  unfold sendResponseFromMemory
  split
  · exact .refl w
  · exact sent_same w (some [.transient data, .flush]) rv _

theorem sendResponseFromFile_same (w : Reply) (size : Int) (a : FileAnswers) (handle : Nat) (offset length : Int) :
    SameNotice w (sendResponseFromFile w size a handle offset length).2 := by
  unfold sendResponseFromFile
  split
  · exact .refl w
  · exact sent_same w (internalResponseFromFile size a handle offset length).1 _ _

/-- A call that completes nothing leaves the callback and the event alone. -/
theorem run_same (D : Delegate) (w : Reply) {c : Call} (hc : c.completes = false) : SameNotice w (c.run D w).2 := by
  cases c with
  | setEndOfSendNotification callback extraData => exact .refl w
  | sendStatus code desc tail =>
    unfold Call.run sendStatus
    dsimp only
    split <;> exact ⟨rfl, rfl, rfl⟩
  | sendKnownResponseHeader index value => exact sendHeader_same w _
  | sendUnknownResponseHeader name value => exact sendHeader_same w _
  | sendCalculatedContentLength n => exact ⟨rfl, rfl, rfl⟩
  | sendResponseFromMemory data rv => exact sendResponseFromMemory_same w data rv
  | sendResponseFromArray data length rv =>
    unfold Call.run sendResponseFromArray
    dsimp only
    split
    · exact .refl w
    · split
      · exact .refl w
      · exact sendResponseFromMemory_same w _ rv
  | sendResponseFromFile size a handle offset length => exact sendResponseFromFile_same w size a handle offset length
  | sendResponseFromNamedFile size a stream offset length =>
    unfold Call.run sendResponseFromNamedFile
    dsimp only
    split
    · exact .refl w
    · split
      · exact .refl w
      · exact sendResponseFromFile_same w size a _ offset length
  | flushResponse finalFlush =>
    cases finalFlush with
    | false => exact .refl w
    | true => cases hc
  | endOfRequest => cases hc
  | closeConnection => exact .refl w

theorem flushResponse_empty (D : Delegate) {w : Reply} (h : w.eosnCallback = none) :
    flushResponse D w true = (.ok (), { w.pass [.eos] with body_sent := true }) := by
  unfold flushResponse
  rw [if_pos rfl]
  dsimp only
  split
  · rfl
  · rename_i callback hc
    exact absurd (h.symm.trans hc) (by simp)

theorem endOfRequest_empty (D : Delegate) {w : Reply} (h : w.eosnCallback = none) :
    endOfRequest D w = (.ok (), { w with wait_complete := true }) := by
  unfold endOfRequest
  split
  · rfl
  · rename_i callback hc
    exact absurd (h.symm.trans hc) (by simp)

theorem eq_of_completes {c : Call} (h : c.completes = true) : c = .flushResponse true ∨ c = .endOfRequest := by
  cases c with
  | flushResponse finalFlush => exact .inl (congrArg _ h)
  | endOfRequest => exact .inr rfl
  | _ => cases h

/-- The slot of the callback stays empty, and nothing is invoked. -/
theorem run_slot (D : Delegate) {w : Reply} (h : w.eosnCallback = none) (c : Call) :
    (c.run D w).2.eosnCallback = none ∧ (c.run D w).2.invoked = w.invoked := by
  cases hc : c.completes with
  | false =>
    have hsame := run_same D w hc
    exact ⟨hsame.slot.trans h, hsame.invoked⟩
  | true =>
    rcases eq_of_completes hc with rfl | rfl
    · show (flushResponse D w true).2.eosnCallback = none ∧ (flushResponse D w true).2.invoked = w.invoked
      rw [flushResponse_empty D h]
      exact ⟨h, rfl⟩
    · show (endOfRequest D w).2.eosnCallback = none ∧ (endOfRequest D w).2.invoked = w.invoked
      rw [endOfRequest_empty D h]
      exact ⟨h, rfl⟩

/-- Over any sequence of calls nothing is invoked. -/
theorem session_silent (D : Delegate) : ∀ (calls : List Call) {w : Reply}, w.eosnCallback = none →
    session D w calls = calls.map fun _ => []
  | [], _, _ => rfl
  | c :: calls, w, h => by
    obtain ⟨hslot, hnone⟩ := run_slot D (w := { w with invoked := [] }) h c
    unfold session
    dsimp only
    rw [hnone, session_silent D calls hslot, List.map_cons]

/-! ## What should have been invoked -/

theorem completes_of_registers {c : Call} (h : c.registers.isSome) : c.completes = false := by
  cases c <;> first | rfl | cases h

/-- With a callback in the slot, nothing is to be invoked exactly when no
completion comes. -/
theorem expected_some_silent : ∀ (calls : List Call) (slot : Invocation),
    expected (some slot) calls = (calls.map fun _ => []) ↔ ∀ c ∈ calls, c.completes = false
  | [], _ => by simp [expected]
  | c :: calls, slot => by
    rw [List.forall_mem_cons]
    unfold expected
    split
    · rename_i i hi
      have hc := completes_of_registers (c := c) (by rw [hi]; rfl)
      rw [List.map_cons, List.cons.injEq, expected_some_silent calls i]
      simp [hc]
    · cases hc : c.completes
      · rw [if_neg (by simp), List.map_cons, List.cons.injEq, expected_some_silent calls slot]
        simp
      · simp

/-- With an empty slot: no completion follows a registration. -/
theorem expected_none_silent : ∀ calls : List Call,
    expected none calls = (calls.map fun _ => []) ↔ NeverCompleted calls
  | [] => by simp [expected, NeverCompleted]
  | c :: calls => by
    have ih := expected_none_silent calls
    have hcons : NeverCompleted (c :: calls) ↔
        (c.registers.isSome → ∀ c' ∈ calls, c'.completes = false) ∧ NeverCompleted calls := by
      constructor
      · intro h
        exact ⟨fun hr => h [] c calls rfl hr, fun before c' after he hr => h (c :: before) c' after (by rw [he]; rfl) hr⟩
      · rintro ⟨h0, h⟩ before c' after he hr
        cases before with
        | nil => cases he; exact h0 hr
        | cons b before => cases he; exact h before c' after rfl hr
    rw [hcons]
    unfold expected
    split
    · rename_i i hi
      rw [List.map_cons, List.cons.injEq, expected_some_silent calls i]
      constructor
      · rintro ⟨-, h⟩
        exact ⟨fun _ => h, fun before c' after he _ d hd => h d (by rw [he]; simp [hd])⟩
      · rintro ⟨h, -⟩
        exact ⟨rfl, h (by rw [hi]; rfl)⟩
    · rename_i hn
      have hsame : (if c.completes then Option.toList none :: expected none calls else [] :: expected none calls) =
          [] :: expected none calls := by cases c.completes <;> rfl
      rw [hsame, List.map_cons, List.cons.injEq, ih, hn]
      simp

/-! ## The theorem -/

/-- For every request, every behaviour of the callbacks and every sequence of
calls: callbacks are invoked as they should be exactly when none should be. -/
theorem notified_iff (D : Delegate) (status : Int) (line : StatusLine) (headers : Headers.Response)
    (calls : List Call) : NotifiesOnce D (newReply status line headers) calls ↔ NeverCompleted calls := by
  unfold NotifiesOnce
  rw [session_silent D calls rfl, ← expected_none_silent]
  exact eq_comm

/-- One registration, and `EndOfRequest`. -/
theorem callback_not_invoked : ¬ ∀ (D : Delegate) (status : Int) (line : StatusLine) (headers : Headers.Response)
    (calls : List Call), NotifiesOnce D (newReply status line headers) calls := by
  intro h
  have := h (fun _ _ w => (.ok (), w)) 200 (.standard 200) ⟨none, []⟩ [.setEndOfSendNotification 0 (some 7), .endOfRequest]
  revert this
  unfold NotifiesOnce
  decide

end ModAspNet.L5.Completion
