import ModAspNet.L5Worker.FileRange
import ModAspNet.L5Worker.Answers

/-!
# The bytes of the response

ASP.NET sends the body of a response piece by piece: from memory, from arrays
and from ranges of files. Each piece becomes a brigade, and what the client gets
is what the buckets of the brigades stand for.

* `run_passed`: a call hands over the brigades of `Call.brigades`.
* `passed_eq`: in any run of `Handler`, those of its calls, in order.
* `piece_le`, `piece_eq_iff`: a piece is never longer than what was asked for,
  and is that exactly when the call is whole.
* `body_sent_iff`: the body is what was asked for, byte for byte, exactly when
  every call is whole.
-/
namespace ModAspNet.L5.ResponseBody

open ModAspNet.L1.CStr ModAspNet.L1.Managed
open ModAspNet.L5.Body (InputFilters)
open ModAspNet.L5.Completion ModAspNet.L5.HandlerRun ModAspNet.L5.FileRange
open ModAspNet.L5.Answers (logged_sent catchException_failed)

/-! ## What is asked for -/

/-- The bytes `[start, start + length)` of a file. -/
def slice (file : Bytes) (start length : Int) : Bytes := (file.drop start.toNat).take length.toNat

/-- What ASP.NET asks to be sent by a call; `file` has the contents of the file
of each handle. -/
def asks (file : Nat → Bytes) : Call → Bytes
  | .sendResponseFromMemory data _ => data
  | .sendResponseFromArray data length _ => data.take length
  | .sendResponseFromFile _ _ handle offset length => slice (file handle) offset length
  | .sendResponseFromNamedFile _ _ (.ok handle) offset length => slice (file handle) offset length
  | _ => []

/-- A range that lies in the file, in 64 bits. -/
structure InFile (file : Bytes) (offset length : Int) : Prop where
  offset_nonneg : 0 ≤ offset
  length_nonneg : 0 ≤ length
  end_le : offset + length ≤ file.length
  end_lt : offset + length < 9223372036854775808

/-- A call asks for ranges that are there. -/
def AsksInFile (file : Nat → Bytes) : Call → Prop
  | .sendResponseFromFile _ _ handle offset length => InFile (file handle) offset length
  | .sendResponseFromNamedFile _ _ (.ok handle) offset length => InFile (file handle) offset length
  | _ => True

/-- The handle is accepted, and the length is not cut to 32 bits. -/
def WholeFile (finfoSize : Int) (a : FileAnswers) (length : Int) : Prop :=
  length ≠ 0 → a.put = 0 ∧ (finfoSize > AP_MAX_SENDFILE ∨ length < 4294967296)

def Whole : Call → Prop
  | .sendResponseFromFile finfoSize a _ _ length => WholeFile finfoSize a length
  | .sendResponseFromNamedFile finfoSize a (.ok _) _ length => WholeFile finfoSize a length
  | _ => True

/-! ## What is sent -/

/-- The bytes a bucket stands for. -/
def bytesOf (file : Nat → Bytes) : OutBucket → Bytes
  | .transient data => data
  | .file handle start length => slice (file handle) start length
  | _ => []

def bodyOf (file : Nat → Bytes) (passed : List (List OutBucket)) : Bytes := passed.flatten.flatMap (bytesOf file)

/-- The brigades a call hands over. -/
def brigades : Call → List (List OutBucket)
  | .sendResponseFromMemory data _ => if data.length = 0 then [] else [[.transient data, .flush]]
  | .sendResponseFromArray data length _ =>
    if length = 0 ∨ data = [] then [] else [[.transient (data.take length), .flush]]
  | .sendResponseFromFile finfoSize a handle offset length =>
    if length = 0 then [] else (internalResponseFromFile finfoSize a handle offset length).1.toList
  | .sendResponseFromNamedFile finfoSize a (.ok handle) offset length =>
    if length = 0 then [] else (internalResponseFromFile finfoSize a handle offset length).1.toList
  | .flushResponse true => [[.eos]]
  | _ => []

/-- The calls among the steps of a run. -/
def calls (done : List Step) : List Call :=
  done.filterMap fun
    | .call c => some c
    | _ => none

def isFinalFlush : Call → Bool
  | .flushResponse finalFlush => finalFlush
  | _ => false

/-! ## The brigades of a run -/

theorem memory_passed (w : Reply) (data : Bytes) (rv : Int) : (sendResponseFromMemory w data rv).2.passed =
    w.passed ++ if data.length = 0 then [] else [[.transient data, .flush]] := by
  unfold sendResponseFromMemory
  split
  · rw [List.append_nil]
  · exact (logged_sent _ rv _).1

theorem file_passed (w : Reply) (finfoSize : Int) (a : FileAnswers) (handle : Nat) (offset length : Int) :
    (sendResponseFromFile w finfoSize a handle offset length).2.passed = w.passed ++
      if length = 0 then [] else (internalResponseFromFile finfoSize a handle offset length).1.toList := by
  unfold sendResponseFromFile
  split
  · rw [List.append_nil]
  · dsimp only
    rw [(logged_sent _ _ _).1]
    cases (internalResponseFromFile finfoSize a handle offset length).1 with
    | none => rw [Option.toList_none, List.append_nil]
    | some bb => rfl

/-- With an empty slot of the callback a call hands over its brigades. -/
theorem run_passed (D : Delegate) {w : Reply} (h : w.eosnCallback = none) (c : Call) :
    (c.run D w).2.passed = w.passed ++ brigades c := by
  cases c with
  | sendResponseFromMemory data rv => exact memory_passed w data rv
  | sendResponseFromArray data length rv =>
    unfold Call.run sendResponseFromArray brigades
    dsimp only
    by_cases hlen : length = 0
    · simp [hlen]
    by_cases hdata : data = []
    · simp [hdata, hlen]
    have htake : (data.take length).length ≠ 0 := by
      have := List.length_pos_of_ne_nil hdata
      rw [List.length_take]
      omega
    rw [if_neg hlen, if_neg hdata, if_neg (by simp [hlen, hdata]), memory_passed, if_neg htake]
  | sendResponseFromFile finfoSize a handle offset length => exact file_passed w finfoSize a handle offset length
  | sendResponseFromNamedFile finfoSize a stream offset length =>
    unfold Call.run sendResponseFromNamedFile
    dsimp only
    cases stream with
    | error e =>
      show (if length = 0 then (.ok (), w) else (.error e, w) : Result).2.passed = w.passed ++ []
      rw [List.append_nil]
      split <;> rfl
    | ok handle =>
      split
      · rename_i hlen
        simp only [brigades, if_pos hlen, List.append_nil]
      · exact file_passed w finfoSize a handle offset length
  | sendStatus code desc tail =>
    rw [show brigades (.sendStatus code desc tail) = [] from rfl, List.append_nil]
    unfold Call.run sendStatus
    dsimp only
    split <;> rfl
  | sendKnownResponseHeader index value =>
    rw [show brigades (.sendKnownResponseHeader index value) = [] from rfl, List.append_nil]
    unfold Call.run sendHeader
    dsimp only
    split <;> rfl
  | sendUnknownResponseHeader name value =>
    rw [show brigades (.sendUnknownResponseHeader name value) = [] from rfl, List.append_nil]
    unfold Call.run sendHeader
    dsimp only
    split <;> rfl
  | flushResponse finalFlush =>
    cases finalFlush with
    | true =>
      show (flushResponse D w true).2.passed = _
      rw [flushResponse_empty D h]
      rfl
    | false => exact (List.append_nil _).symm
  | endOfRequest =>
    show (endOfRequest D w).2.passed = _
    rw [endOfRequest_empty D h]
    exact (List.append_nil _).symm
  | setEndOfSendNotification callback extraData => exact (List.append_nil _).symm
  | sendCalculatedContentLength n => exact (List.append_nil _).symm
  | closeConnection => exact (List.append_nil _).symm

theorem calls_call (done : List Step) (c : Call) : calls (done ++ [.call c]) = calls done ++ [c] := by
  simp [calls]

theorem calls_other (done : List Step) {t : Step} (ht : ∀ c, t ≠ .call c) : calls (done ++ [t]) = calls done := by
  cases t with
  | call c => exact absurd rfl (ht c)
  | _ => simp [calls]

/-- One step of a run. -/
theorem step_passed {D : Delegate} {uri : WString} {done : List Step} {s s' : State} {t : Step} (hi : Inv done s)
    (h : s.reply.passed = (calls done).flatMap brigades) (hs : step D uri s t = some s') :
    s'.reply.passed = (calls (done ++ [t])).flatMap brigades := by
  have hcall : ∀ c : Call, (c.run D s.reply).2.passed = (calls (done ++ [.call c])).flatMap brigades := by
    intro c
    rw [run_passed D hi.slot, h, calls_call, List.flatMap_append, List.flatMap_singleton]
  cases stepped hs with
  | @running c hr => exact hcall c
  | @owing c ho => exact hcall c
  | returned hp => rw [calls_other done (by simp)]; exact h
  | @caught e hp htext => rw [calls_other done (by simp)]; exact (catchException_failed uri s.reply e).passed.trans h
  | @raised e e' hp htext => rw [calls_other done (by simp)]; exact (catchException_failed uri s.reply e).passed.trans h
  | woken hw => rw [calls_other done (by simp)]; exact h

/-- For every preread and every run: the brigades are those of the calls made. -/
theorem passed_eq {D : Delegate} {uri : WString} {F : InputFilters} {st : F.State} {status : Int} {line : StatusLine}
    {headers : Headers.Response} {done : List Step} {s : State}
    (hr : run D uri (started F st (newReply status line headers)) done = some s) :
    s.reply.passed = (calls done).flatMap brigades := by
  have hinv := started_inv F st status line headers
  have hnew : (started F st (newReply status line headers)).reply.passed = [] := by
    unfold started
    split <;> rfl
  exact (run_rule (P := fun done s => Inv done s ∧ s.reply.passed = (calls done).flatMap brigades) ⟨hinv, hnew⟩
    (fun _ h ht => ⟨step_inv h.1 ht, step_passed h.1 h.2 ht⟩) done hr).2

/-! ## One piece -/

theorem slice_length {f : Bytes} {offset length : Int} (h : InFile f offset length) : (slice f offset length).length = length.toNat := by
  have := h.offset_nonneg
  have := h.length_nonneg
  have := h.end_le
  rw [slice, List.length_take, List.length_drop]
  omega

theorem slice_append (f : Bytes) {start a b : Int} (hs : 0 ≤ start) (ha : 0 ≤ a) (hb : 0 ≤ b) :
    slice f start a ++ slice f (start + a) b = slice f start (a + b) := by
  have hstart : (start + a).toNat = start.toNat + a.toNat := by omega
  have hlength : (a + b).toNat = a.toNat + b.toNat := by omega
  rw [slice, slice, slice, hstart, hlength, ← List.drop_drop, List.take_add]

/-- Buckets that tile a range stand for its bytes. -/
theorem tiles_bytes {file : Nat → Bytes} {handle : Nat} : ∀ {files : List OutBucket} {lo hi : Int}, 0 ≤ lo → Tiles handle lo files hi →
    files.flatMap (bytesOf file) = slice (file handle) lo (hi - lo)
  | [], lo, hi, _, h => by
    obtain rfl : lo = hi := h
    simp [slice]
  | .file h' start' n :: rest, lo, hi, hlo, h => by
    obtain ⟨rfl, rfl, hpos, -, hrest⟩ := h
    have hle := (tiles_start hrest).1
    have hsum : hi - start' = n + (hi - (start' + n)) := by omega
    rw [List.flatMap_cons, tiles_bytes (by omega) hrest, hsum]
    exact slice_append _ hlo (by omega) (by omega)
  | .eos :: _, _, _, _, h => h.elim
  | .flush :: _, _, _, _, h => h.elim
  | .transient _ :: _, _, _, _, h => h.elim

section
variable {file : Nat → Bytes} {handle : Nat} {offset length finfoSize : Int} {a : FileAnswers}

/-- The bytes handed over for a range. -/
theorem file_bytes (h : InFile (file handle) offset length) (hlen : length ≠ 0) :
    bodyOf file (internalResponseFromFile finfoSize a handle offset length).1.toList =
      if a.put ≠ 0 then [] else slice (file handle) offset (if finfoSize > AP_MAX_SENDFILE then length else aprSize length) := by
  have := h.length_nonneg
  by_cases hput : a.put = 0
  · let range : Range := ⟨offset, length, h.offset_nonneg, by omega, h.end_lt⟩
    rw [internalResponseFromFile_range hput finfoSize handle range, if_neg (not_not.mpr hput)]
    show (List.flatten [_]).flatMap (bytesOf file) = _
    rw [List.flatten_singleton, List.flatMap_append]
    split
    · have htiles := splitFile_tiles handle offset length (by omega)
      rw [tiles_bytes h.offset_nonneg htiles, show offset + length - offset = length by omega]
      exact List.append_nil _
    · rw [List.flatMap_singleton]
      exact List.append_nil _
  · have hnone : (internalResponseFromFile finfoSize a handle offset length).1 = none := by
      unfold internalResponseFromFile
      rw [if_pos hput]
    rw [hnone, if_pos hput]
    rfl

theorem aprSize_bounds (h : 0 ≤ length) : 0 ≤ aprSize length ∧ aprSize length ≤ length ∧
    (aprSize length = length ↔ length < 4294967296) := by
  unfold aprSize
  omega

/-- They are at most those asked for, and all of them exactly when the call is
whole. -/
theorem file_piece (h : InFile (file handle) offset length) :
    (bodyOf file (if length = 0 then [] else (internalResponseFromFile finfoSize a handle offset length).1.toList)).length ≤
        (slice (file handle) offset length).length ∧
      (bodyOf file (if length = 0 then [] else (internalResponseFromFile finfoSize a handle offset length).1.toList) =
        slice (file handle) offset length ↔ WholeFile finfoSize a length) := by
  by_cases hlen : length = 0
  · subst hlen
    simp [bodyOf, slice, WholeFile]
  rw [if_neg hlen, file_bytes h hlen]
  have hasked := slice_length h
  have hpos := h.length_nonneg
  obtain ⟨hnonneg, hle, hfits⟩ := aprSize_bounds hpos
  unfold WholeFile
  by_cases hput : a.put = 0
  · rw [if_neg (by simp [hput])]
    split
    · rename_i hbig
      simp [hput, hbig]
    · rename_i hbig
      have hcut : InFile (file handle) offset (aprSize length) :=
        ⟨h.offset_nonneg, hnonneg, by have := h.end_le; omega, by have := h.end_lt; omega⟩
      have hsent := slice_length hcut
      refine ⟨by omega, fun heq _ => ⟨hput, .inr ?_⟩, fun hw => ?_⟩
      · have := congrArg List.length heq
        exact hfits.mp (by omega)
      · rw [hfits.mpr ((hw hlen).2.resolve_left hbig)]
  · rw [if_pos hput]
    refine ⟨Nat.zero_le _, fun heq => ?_, fun hw => absurd (hw hlen).1 hput⟩
    have := congrArg List.length heq
    simp only [List.length_nil] at this
    omega

end

/-- A piece is never longer than what was asked for, and is that exactly when
the call is whole. -/
theorem call_piece (file : Nat → Bytes) {c : Call} (h : AsksInFile file c) :
    (bodyOf file (brigades c)).length ≤ (asks file c).length ∧ (bodyOf file (brigades c) = asks file c ↔ Whole c) := by
  cases c with
  | sendResponseFromMemory data rv =>
    have heq : bodyOf file (brigades (.sendResponseFromMemory data rv)) = data := by
      by_cases hdata : data.length = 0
      · simp [bodyOf, brigades, List.length_eq_zero_iff.mp hdata]
      · simp [bodyOf, brigades, bytesOf, List.length_eq_zero_iff.not.mp hdata]
    rw [heq]
    exact ⟨le_refl _, fun _ => trivial, fun _ => rfl⟩
  | sendResponseFromArray data length rv =>
    have heq : bodyOf file (brigades (.sendResponseFromArray data length rv)) = data.take length := by
      unfold brigades
      dsimp only
      split
      · rename_i hnone
        rcases hnone with rfl | rfl <;> simp [bodyOf]
      · simp [bodyOf, bytesOf]
    rw [heq]
    exact ⟨le_refl _, fun _ => trivial, fun _ => rfl⟩
  | sendResponseFromFile finfoSize a handle offset length => exact file_piece h
  | sendResponseFromNamedFile finfoSize a stream offset length =>
    cases stream with
    | ok handle => exact file_piece h
    | error e => exact ⟨le_refl _, fun _ => trivial, fun _ => rfl⟩
  | flushResponse finalFlush =>
    cases finalFlush <;> exact ⟨le_refl _, fun _ => trivial, fun _ => rfl⟩
  | _ => exact ⟨le_refl _, fun _ => trivial, fun _ => rfl⟩

/-! ## The whole body -/

/-- Pieces that are each no longer than they should be make up the whole
exactly when each is as it should be. -/
theorem flatMap_eq_iff {α β : Type*} {f g : α → List β} : ∀ {l : List α}, (∀ x ∈ l, (f x).length ≤ (g x).length) →
    (l.flatMap f).length ≤ (l.flatMap g).length ∧ (l.flatMap f = l.flatMap g ↔ ∀ x ∈ l, f x = g x)
  | [], _ => by simp
  | x :: l, h => by
    obtain ⟨hx, hl⟩ := List.forall_mem_cons.mp h
    obtain ⟨hle, hiff⟩ := flatMap_eq_iff hl
    rw [List.flatMap_cons, List.flatMap_cons, List.forall_mem_cons, ← hiff]
    refine ⟨by simp only [List.length_append]; omega, fun heq => ?_, fun ⟨hfx, hfl⟩ => by rw [hfx, hfl]⟩
    have hlen := congrArg List.length heq
    simp only [List.length_append] at hlen
    exact List.append_inj heq (by omega)

/-! ## EOS -/

theorem eos_splitFile (handle : Nat) (start fsize : Int) : (splitFile handle start fsize).count .eos = 0 := by
  induction start, fsize using splitFile.induct with
  | case1 start fsize hlong ih =>
    unfold splitFile
    rw [if_pos hlong, List.count_cons_of_ne (by simp), ih]
  | case2 start fsize hshort =>
    unfold splitFile
    rw [if_neg hshort]
    rfl

theorem eos_file (finfoSize : Int) (a : FileAnswers) (handle : Nat) (offset length : Int) :
    (internalResponseFromFile finfoSize a handle offset length).1.toList.flatten.count .eos = 0 := by
  unfold internalResponseFromFile
  split
  · rfl
  split
  · rfl
  dsimp only
  rw [Option.toList_some, List.flatten_singleton, List.count_append]
  split
  · rw [eos_splitFile]
    rfl
  · rfl

/-- A final flush hands over one EOS bucket; no other call does. -/
theorem eos_call (c : Call) : (brigades c).flatten.count .eos = if isFinalFlush c then 1 else 0 := by
  cases c with
  | sendResponseFromMemory data rv =>
    unfold brigades
    dsimp only
    split <;> rfl
  | sendResponseFromArray data length rv =>
    unfold brigades
    dsimp only
    split <;> rfl
  | sendResponseFromFile finfoSize a handle offset length =>
    unfold brigades
    dsimp only
    split
    · rfl
    · exact eos_file finfoSize a handle offset length
  | sendResponseFromNamedFile finfoSize a stream offset length =>
    cases stream with
    | error e => rfl
    | ok handle =>
      unfold brigades
      dsimp only
      split
      · rfl
      · exact eos_file finfoSize a handle offset length
  | flushResponse finalFlush => cases finalFlush <;> rfl
  | _ => rfl

theorem eos_count (l : List Call) : (l.flatMap brigades).flatten.count .eos = l.countP isFinalFlush := by
  induction l with
  | nil => rfl
  | cons c l ih =>
    rw [List.flatMap_cons, List.flatten_append, List.count_append, eos_call, ih, List.countP_cons]
    omega

/-! ## The theorem -/

/-- For every preread, every behaviour of the callbacks and every run of
`Handler` whose calls ask for ranges that are there: the bytes handed to the
output filters are those asked for, in order, exactly when no handle was
refused and no length cut; and they end with one EOS bucket for each final flush. -/
theorem body_sent_iff (D : Delegate) (uri : WString) (F : InputFilters) (st : F.State) (status : Int)
    (line : StatusLine) (headers : Headers.Response) (done : List Step) (s : State)
    (hr : run D uri (started F st (newReply status line headers)) done = some s) (file : Nat → Bytes)
    (hin : ∀ c ∈ calls done, AsksInFile file c) :
    (bodyOf file s.reply.passed = (calls done).flatMap (asks file) ↔ ∀ c ∈ calls done, Whole c) ∧
      s.reply.passed.flatten.count .eos = (calls done).countP isFinalFlush := by
  have hbody : bodyOf file s.reply.passed = (calls done).flatMap fun c => bodyOf file (brigades c) := by
    simp only [passed_eq hr, bodyOf, List.flatten_eq_flatMap, List.flatMap_assoc]
  refine ⟨?_, ?_⟩
  · rw [hbody, (flatMap_eq_iff fun c hc => (call_piece file (hin c hc)).1).2]
    exact forall₂_congr fun c hc => (call_piece file (hin c hc)).2
  · rw [passed_eq hr, eos_count]

/-! ## A page and a file -/

/-- Handle 3 is a file of two bytes. -/
def pageFile (handle : Nat) : Bytes := if handle = 3 then lit "ok" else []

/-- A header from memory, then the file, sent from a request for a small page. -/
def pageSteps : List Step :=
  [.call (.sendStatus 200 none []), .call (.sendResponseFromMemory (lit "<p>") 0),
    .call (.sendResponseFromFile 1024 ⟨0, 0, 2, 0⟩ 3 0 2), .call (.flushResponse true), .call .endOfRequest, .returns, .wakes]

def pageEnd : Option State :=
  run (fun _ _ w => (.ok (), w)) (wlit "/app/a.aspx") (started emptyBody () (newReply 200 (.standard 200) ⟨none, []⟩)) pageSteps

theorem pageEnd_isSome : pageEnd.isSome = true := by decide +kernel

theorem body_sent_page : bodyOf pageFile (pageEnd.get pageEnd_isSome).reply.passed = lit "<p>ok" ∧
    (bodyOf pageFile (pageEnd.get pageEnd_isSome).reply.passed = (calls pageSteps).flatMap (asks pageFile) ↔
      ∀ c ∈ calls pageSteps, Whole c) ∧
    (pageEnd.get pageEnd_isSome).reply.passed.flatten.count .eos = (calls pageSteps).countP isFinalFlush := by
  refine ⟨by decide +kernel, body_sent_iff _ _ _ _ _ _ _ pageSteps _ (Option.some_get pageEnd_isSome).symm pageFile ?_⟩
  have hfile : InFile (pageFile 3) 0 2 := ⟨by decide, by decide, by decide +kernel, by decide⟩
  simp [calls, pageSteps, AsksInFile, hfile]

end ModAspNet.L5.ResponseBody
