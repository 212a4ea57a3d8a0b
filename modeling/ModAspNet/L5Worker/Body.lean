import ModAspNet.L5Worker.Brigade

/-!
# Reassembling the request body

`ReadBytesChain` is what `AP_MODE_READBYTES` promises of the input filters of
one request: at most the bytes asked for, the body in order, cut and mixed
with flush buckets in any way, one EOS bucket after the last byte and nothing
but EOS from then on. Whether it also makes progress (`Progresses`) matters
for termination only.

* `internalRead_spec`: one `InternalReadEntityBody` takes the next bytes of the
  body, and stops at the end of the buffer or of the body.
* `internalRead_returns`: on filters that make progress it does stop.
* `body_reassembled`: over any sequence of calls, what ASP.NET gets is the body.
-/
namespace ModAspNet.L5.Body

open ModAspNet.L1.CStr ModAspNet.L1.Managed

/-! ## The contract of the filters -/

/-- One brigade of at most `n` data bytes, and how it moves the body on. -/
structure Delivery (n : Nat) (bb : List Bucket) (rest rest' : Bytes) (ended ended' : Bool) : Prop where
  wellFormed : WellFormed bb
  bounded : (dataOf bb).length ≤ n
  ordered : dataOf bb ++ rest' = rest
  ended_iff : ended' = (ended || hasEos bb)
  after_eos : ended = true → bb = [.eos]

/-- Filters that deliver a body. `rest` is the part of it not delivered yet,
`ended` whether EOS was. -/
structure ReadBytesChain extends InputFilters where
  rest : State → Bytes
  ended : State → Bool
  at_end : ∀ st, ended st = true → rest st = []
  delivers : ∀ st n, 0 < n → ∃ bb, (getBrigade st n).1 = .ok bb ∧
    Delivery n bb (rest st) (rest (getBrigade st n).2) (ended st) (ended (getBrigade st n).2)

/-- A brigade with neither data nor EOS comes only finitely often in a row:
`APR_BLOCK_READ` waits for data. -/
def ReadBytesChain.Progresses (C : ReadBytesChain) : Prop :=
  ∃ idle : C.State → Nat, ∀ st n bb, 0 < n → (C.getBrigade st n).1 = .ok bb → dataOf bb = [] →
    hasEos bb = false → idle (C.getBrigade st n).2 < idle st

section
variable (C : ReadBytesChain)

theorem ReadBytesChain.get (st : C.State) {n : Nat} (hn : 0 < n) :
    ∃ bb st', C.getBrigade st n = (.ok bb, st') ∧
      Delivery n bb (C.rest st) (C.rest st') (C.ended st) (C.ended st') := by
  obtain ⟨bb, hbb, hd⟩ := C.delivers st n hn
  exact ⟨bb, (C.getBrigade st n).2, Prod.ext hbb rfl, hd⟩

/-! ## One `InternalReadEntityBody` -/

/-- The bytes asked for in one turn of the loop. -/
def sizeOne (s : ReadState) : Nat := if HUGE_STRING_LEN ≤ s.dest.size then HUGE_STRING_LEN else s.dest.size

theorem sizeOne_pos {s : ReadState} (h : 0 < s.dest.size) : 0 < sizeOne s := by
  unfold sizeOne HUGE_STRING_LEN; split <;> omega

theorem sizeOne_le (s : ReadState) : sizeOne s ≤ s.dest.size := by
  unfold sizeOne; split <;> omega

/-- One turn: a brigade is read whole, and the loop goes on while the buffer
has room and EOS was not seen. -/
theorem internalRead_turn (st : C.State) {s : ReadState} (hf : s.dest.Fits) (hpos : 0 < s.dest.size) :
    ∃ bb st' s', Delivery (sizeOne s) bb (C.rest st) (C.rest st') (C.ended st) (C.ended st') ∧
      C.getBrigade st (sizeOne s) = (.ok bb, st') ∧
      s'.overflow = s.overflow ∧ Reads s.toFilling s'.toFilling (dataOf bb) (hasEos bb) ∧
      ∀ fuel, internalReadEntityBody C.toInputFilters (fuel + 1) st s =
        if !s'.seen_eos ∧ s'.dest.size > 0 then internalReadEntityBody C.toInputFilters fuel st' s'
        else some (0, s', st') := by
  obtain ⟨bb, st', hget, hd⟩ := C.get st (sizeOne_pos hpos)
  obtain ⟨s', hread, hover, hreads⟩ := readBrigade_reads bb s hd.wellFormed hf
    (le_trans hd.bounded (sizeOne_le s))
  refine ⟨bb, st', s', hd, hget, hover, hreads, fun fuel => ?_⟩
  rw [sizeOne] at hget
  simp only [internalReadEntityBody, hget, hread, ne_eq, not_true_eq_false, if_false]

/-- The next bytes of the body go to the buffer, no more than fit, and the
call ends at the end of the buffer or of the body. -/
theorem internalRead_spec : ∀ (fuel : Nat) (st : C.State) (s : ReadState), s.dest.Fits → 0 < s.dest.size →
    ∀ {rv : Int} {s' : ReadState} {st' : C.State},
    internalReadEntityBody C.toInputFilters fuel st s = some (rv, s', st') →
    rv = 0 ∧ s'.overflow = s.overflow ∧ ∃ data eos, Reads s.toFilling s'.toFilling data eos ∧
      data ++ C.rest st' = C.rest st ∧ C.ended st' = (C.ended st || eos) ∧
      (s'.seen_eos = true ∨ s'.dest.size = 0)
  | 0, _, _, _, _, _, _, _, h => by cases h
  | fuel + 1, st, s, hf, hpos, rv, s', st', h => by
    obtain ⟨bb, st₁, s₁, hd, -, hover, hreads, heq⟩ := internalRead_turn C st hf hpos
    rw [heq] at h
    split at h
    · rename_i hgo
      obtain ⟨hrv, hover', data, eos, hreads', hrest, hended, hstop⟩ :=
        internalRead_spec fuel st₁ s₁ (hreads.dest.fits hf) hgo.2 h
      refine ⟨hrv, hover'.trans hover, dataOf bb ++ data, hasEos bb || eos, hreads.trans hreads', ?_, ?_, hstop⟩
      · rw [List.append_assoc, hrest, hd.ordered]
      · rw [hended, hd.ended_iff, Bool.or_assoc]
    · rename_i hstop
      cases h
      refine ⟨rfl, hover, dataOf bb, hasEos bb, hreads, hd.ordered, hd.ended_iff, ?_⟩
      cases he : s'.seen_eos
      · right; simp only [he, Bool.not_false, true_and, not_lt] at hstop; omega
      · exact .inl rfl

/-- More fuel does not change a result. -/
theorem internalRead_mono (F : InputFilters) : ∀ (fuel more : Nat) (st : F.State) (s : ReadState)
    {r : Int × ReadState × F.State}, internalReadEntityBody F fuel st s = some r →
    internalReadEntityBody F (fuel + more) st s = some r
  | 0, _, _, _, _, h => by cases h
  | fuel + 1, more, st, s, r, h => by
    rw [show fuel + 1 + more = fuel + more + 1 by omega]
    unfold internalReadEntityBody at h ⊢
    dsimp only at h ⊢
    generalize F.getBrigade st _ = got at h ⊢
    obtain ⟨rv | bb, st'⟩ := got
    · exact h
    · dsimp only at h ⊢
      by_cases hrv : (readBrigade bb s).1 ≠ 0
      · rwa [if_pos hrv] at h ⊢
      · rw [if_neg hrv] at h ⊢
        by_cases hgo : !(readBrigade bb s).2.seen_eos ∧ (readBrigade bb s).2.dest.size > 0
        · rw [if_pos hgo] at h ⊢
          exact internalRead_mono F fuel more st' _ h
        · rwa [if_neg hgo] at h ⊢

/-- Filters that make progress: the loop ends. The rest of the body shrinks,
or the filters idle one time less. -/
theorem internalRead_returns (hC : C.Progresses) (st : C.State) (s : ReadState) (hf : s.dest.Fits)
    (hpos : 0 < s.dest.size) : ∃ fuel r, internalReadEntityBody C.toInputFilters fuel st s = some r := by
  obtain ⟨idle, hidle⟩ := hC
  induction hl : (C.rest st).length using Nat.strongRecOn generalizing st s with
  | ind l ihl =>
    induction hi : idle st using Nat.strongRecOn generalizing st s with
    | ind i ihi =>
      obtain ⟨bb, st', s', hd, hget, -, hreads, heq⟩ := internalRead_turn C st hf hpos
      have hlen : (dataOf bb).length + (C.rest st').length = l := by
        rw [← hl, ← hd.ordered, List.length_append]
      by_cases hgo : !s'.seen_eos ∧ s'.dest.size > 0
      · have hmore : ∃ fuel r, internalReadEntityBody C.toInputFilters fuel st' s' = some r := by
          by_cases hdata : dataOf bb = []
          · have heos : hasEos bb = false := by
              have := hreads.seen_eos
              simp only [Bool.not_eq_true'] at hgo
              rw [hgo.1, Eq.comm, Bool.or_eq_false_iff] at this
              exact this.2
            have hlt := hidle st _ bb (sizeOne_pos hpos) (by rw [hget]) hdata heos
            rw [hget, hi] at hlt
            exact ihi _ hlt st' s' (hreads.dest.fits hf) hgo.2 (by rw [hdata] at hlen; simpa using hlen) rfl
          · have := List.length_pos_iff.mpr hdata
            exact ihl _ (by omega) st' s' (hreads.dest.fits hf) hgo.2 rfl
        obtain ⟨fuel, r, hr⟩ := hmore
        exact ⟨fuel + 1, r, by rw [heq, if_pos hgo, hr]⟩
      · exact ⟨1, _, by rw [heq, if_neg hgo]⟩

end

/-! ## Filters that keep the contract -/

/-- Filters that pass a body on in pieces of at most `k + 1` bytes, each
between an empty data bucket and a flush bucket; `none` once EOS is out. -/
def pieces (k : Nat) : ReadBytesChain where
  State := Option Bytes
  getBrigade
    | some (a :: as), n =>
      (.ok [.data [], .data ((a :: as).take (min n (k + 1))), .flush], some ((a :: as).drop (min n (k + 1))))
    | _, _ => (.ok [.eos], none)
  rest st := st.getD []
  ended := Option.isNone
  at_end := by rintro (_ | _) h <;> simp_all
  delivers := by
    have heos : WellFormed [.eos] := by
      refine ⟨by simp, fun pre post h => ?_⟩
      rcases pre with _ | ⟨b, _ | ⟨b', pre⟩⟩ <;> simp at h
      subst h; rfl
    rintro (_ | _ | ⟨a, as⟩) n hn
    · exact ⟨_, rfl, heos, by simp [dataOf], rfl, rfl, fun _ => rfl⟩
    · exact ⟨_, rfl, heos, by simp [dataOf], rfl, rfl, by simp⟩
    · refine ⟨_, rfl, ⟨by simp, fun pre post h => ?_⟩, ?_, ?_, rfl, by simp⟩
      · have : Bucket.eos ∈ pre ++ .eos :: post := by simp
        rw [← h] at this
        simp at this
      · simp only [dataOf, List.nil_append, List.append_nil, List.length_take]; omega
      · simp [dataOf]

/-- Each brigade has a piece of the body or EOS. -/
theorem pieces_progresses (k : Nat) : (pieces k).Progresses := by
  refine ⟨fun _ => 0, ?_⟩
  rintro (_ | _ | ⟨a, as⟩) n bb hn hb hdata heos
  · cases hb; exact absurd heos (by decide)
  · cases hb; exact absurd heos (by decide)
  · cases hb
    simp only [dataOf, List.nil_append, List.append_nil, List.take_eq_nil_iff] at hdata
    rcases hdata with h | h
    · omega
    · cases h

/-! ## A request -/

/-- One `ReadEntityBody(buffer, size)` of ASP.NET, with `size` an `int`. -/
structure Call where
  buffer : Bytes
  size : Int
  pos : 1 ≤ size
  fits : size ≤ buffer.length
  int32 : size < 2 ^ 31

/-- What a call gave back: the result and the buffer. -/
structure Answer where
  size : Int
  read : Nat
  buffer : Bytes

/-- The bytes returned by a call. -/
def Answer.returned (a : Answer) : Bytes := a.buffer.take a.read

/-- The calls of a request, in order. -/
def session (F : InputFilters) (fuel : Nat) : F.State → Worker → List Call →
    Option (Worker × F.State × List Answer)
  | st, w, [] => some (w, st, [])
  | st, w, c :: calls =>
    match readEntityBody F fuel st w c.buffer c.size with
    | none => none
    | some (read, buffer, w', st') =>
      (session F fuel st' w' calls).map fun (w'', st'', as) => (w'', st'', ⟨c.size, read, buffer⟩ :: as)

def newWorker : Worker := ⟨[], false, 0, []⟩

/-- `Handler`'s preread and then the calls; `none` when the preread gives up
or the fuel does not do. -/
def request (F : InputFilters) (fuel : Nat) (st : F.State) (calls : List Call) :
    Option (Worker × F.State × List Answer) :=
  match handlerPreread F st newWorker with
  | (some _, _, _) => none
  | (none, w, st') => session F fuel st' w calls

/-- All bytes handed over: the preread and what the calls returned. -/
def handedOver (w : Worker) (answers : List Answer) : Bytes :=
  w.preread_body ++ answers.flatMap Answer.returned

/-- What ASP.NET was given is the body. -/
structure Reassembled (body : Bytes) (w : Worker) (answers : List Answer) : Prop where
  in_order : handedOver w answers <+: body
  whole : w.seen_eos = true → handedOver w answers = body
  preread : w.preread_body <+: body
  counted : w.bytes_read = (handedOver w answers).length
  within : ∀ a ∈ answers, (a.read : Int) ≤ a.size ∧ a.returned.length = a.read
  short : ∀ before a after, answers = before ++ a :: after → (a.read : Int) < a.size →
    handedOver w (before ++ [a]) = body
  /-- Neither a failure nor an overflow was logged. -/
  quiet : w.log = []

/-- A request in which the body comes through, on filters `C` that start in
`st`: every run of the calls reassembles it, and on filters that make progress
there is one. -/
structure ComesThrough (C : ReadBytesChain) (st : C.State) (calls : List Call) : Prop where
  reassembled : ∀ fuel w st' answers, request C.toInputFilters fuel st calls = some (w, st', answers) →
    Reassembled (C.rest st) w answers
  returns : C.Progresses → ∃ fuel r, request C.toInputFilters fuel st calls = some r

section
variable (C : ReadBytesChain)

/-- Between calls: the rest is what was not handed over, and EOS was seen
exactly when the filters sent it. -/
structure Between (body : Bytes) (st : C.State) (w : Worker) (answers : List Answer) : Prop where
  split : handedOver w answers ++ C.rest st = body
  eos : w.seen_eos = C.ended st
  counted : w.bytes_read = (handedOver w answers).length
  within : ∀ a ∈ answers, (a.read : Int) ≤ a.size ∧ a.returned.length = a.read
  short : ∀ before a after, answers = before ++ a :: after → (a.read : Int) < a.size →
    handedOver w (before ++ [a]) = body
  quiet : w.log = []

theorem Between.reassembled {body : Bytes} {st : C.State} {w : Worker} {answers : List Answer}
    (h : Between C body st w answers) : Reassembled body w answers where
  in_order := ⟨_, h.split⟩
  whole := by
    intro he
    have := h.split
    rwa [C.at_end st (h.eos ▸ he), List.append_nil] at this
  preread := ⟨_, by rw [← List.append_assoc]; exact h.split⟩
  counted := h.counted
  within := h.within
  short := h.short
  quiet := h.quiet

theorem preread_between (st : C.State) : ∃ w st', handlerPreread C.toInputFilters st newWorker = (none, w, st') ∧
    Between C (C.rest st) st' w [] := by
  obtain ⟨bb, st', hget, hd⟩ := C.get st (n := 49152) (by omega)
  have hsize : prereadSize bb = (dataOf bb).length := by
    have hbounded := hd.bounded
    rw [prereadSize, aprBrigadeLength_eq hd.wellFormed, Nat.mod_eq_of_lt (by omega)]
  obtain ⟨hlog, hr⟩ := prereadBrigade_reads bb (newWorker.startPreread (prereadSize bb)) hd.wellFormed
    (by simp [Dest.Fits, Worker.startPreread]) (by dsimp only [Worker.startPreread]; omega)
  have hpre : handlerPreread C.toInputFilters st newWorker =
      (none, (prereadBrigade bb (newWorker.startPreread (prereadSize bb))).worker, st') := by
    rw [handlerPreread, hget]
  generalize prereadBrigade bb (newWorker.startPreread (prereadSize bb)) = s at hlog hr hpre
  have hoff : s.dest.off = 0 + (dataOf bb).length := hr.dest.off
  have hlen : s.dest.buf.length = (List.replicate (prereadSize bb) (0 : UInt8)).length := hr.dest.length
  have hcount : s.bytes_read = 0 + (dataOf bb).length := hr.bytes_read
  have heos : s.seen_eos = (false || hasEos bb) := hr.seen_eos
  -- the array is exactly as long as the data, and all of it was written
  have hbody : s.dest.buf = dataOf bb := by
    have hwritten : s.dest.buf.take s.dest.off = [] ++ dataOf bb := hr.dest.written
    rw [List.length_replicate] at hlen
    rwa [List.take_of_length_le (by omega), List.nil_append] at hwritten
  refine ⟨_, st', hpre, ?_, ?_, ?_, by simp, by simp, hlog⟩
  · simp only [handedOver, PrereadState.worker, hbody, List.flatMap_nil, List.append_nil, hd.ordered]
  · show s.seen_eos = _
    rw [heos, hd.ended_iff]
    cases he : C.ended st with
    | false => rfl
    | true => rw [hd.after_eos he]; rfl
  · simp only [handedOver, PrereadState.worker, hbody, List.flatMap_nil, List.append_nil, hcount, Nat.zero_add]

/-- One call: the next bytes of the body, in the buffer and counted. -/
theorem readEntityBody_takes {st : C.State} {w : Worker} (c : Call) {fuel read : Nat} {buffer : Bytes}
    {w' : Worker} {st' : C.State} (heos : w.seen_eos = C.ended st) (hlog : w.log = [])
    (h : readEntityBody C.toInputFilters fuel st w c.buffer c.size = some (read, buffer, w', st')) :
    (read : Int) ≤ c.size ∧ (buffer.take read).length = read ∧ buffer.take read ++ C.rest st' = C.rest st ∧
      w'.seen_eos = C.ended st' ∧ (w'.seen_eos = true ∨ (read : Int) = c.size) ∧
      w'.preread_body = w.preread_body ∧ w'.bytes_read = w.bytes_read + read ∧ w'.log = [] := by
  have hpos := c.pos
  have hfits := c.fits
  have hint := c.int32
  have hsize : ((c.size % 2 ^ 32).toNat : Int) = c.size := by omega
  unfold readEntityBody at h
  rw [if_neg (by omega)] at h
  obtain ⟨⟨rv, s, st₁⟩, hread, hres⟩ := Option.map_eq_some_iff.mp h
  obtain ⟨rfl, hover, data, eos, hr, hrest, hended, hstop⟩ := internalRead_spec C fuel st _
    (by simp only [Dest.Fits]; omega) (by dsimp only; omega) hread
  have hbytes := hr.bytes_read
  have hwritten := hr.dest.written
  have hoff := hr.dest.off
  have hdest := hr.dest.size
  simp only [Dest.written, List.take_zero, List.nil_append, Nat.zero_add] at hbytes hwritten hoff hdest hover
  simp only [Prod.mk.injEq] at hres
  obtain ⟨rfl, rfl, rfl, rfl⟩ := hres
  have htake : s.dest.buf.take s.bytes_read = data := by rw [hbytes, ← hoff, hwritten]
  have hseen : s.seen_eos = C.ended st₁ := by rw [hr.seen_eos, hended, heos]
  refine ⟨by omega, by rw [htake, hbytes], by rw [htake, hrest], hseen, ?_, rfl, rfl, ?_⟩
  · exact hstop.imp id fun h0 => by omega
  · simp only [hlog, hover, ne_eq, not_true_eq_false, if_false, List.append_nil]

theorem handedOver_snoc (w : Worker) (answers : List Answer) (a : Answer) :
    handedOver w (answers ++ [a]) = handedOver w answers ++ a.returned := by
  simp [handedOver]

theorem readEntityBody_between {body : Bytes} {st : C.State} {w : Worker} {answers : List Answer}
    (h : Between C body st w answers) (c : Call) {fuel read : Nat} {buffer : Bytes} {w' : Worker} {st' : C.State}
    (hr : readEntityBody C.toInputFilters fuel st w c.buffer c.size = some (read, buffer, w', st')) :
    Between C body st' w' (answers ++ [⟨c.size, read, buffer⟩]) := by
  obtain ⟨hle, hlen, hrest, heos, hstop, hpre, hcount, hlog⟩ := readEntityBody_takes C c h.eos h.quiet hr
  have hsame : ∀ as, handedOver w' as = handedOver w as := fun as => by simp only [handedOver, hpre]
  have hsplit : handedOver w (answers ++ [⟨c.size, read, buffer⟩]) ++ C.rest st' = body := by
    rw [handedOver_snoc, Answer.returned, List.append_assoc, hrest, h.split]
  refine ⟨by rw [hsame, hsplit], heos, ?_, ?_, ?_, hlog⟩
  · rw [hsame, handedOver_snoc, List.length_append, ← h.counted, Answer.returned, hlen, hcount]
  · intro a ha
    rcases List.mem_append.mp ha with ha | ha
    · exact h.within a ha
    · rw [List.mem_singleton] at ha; subst ha; exact ⟨hle, hlen⟩
  · intro before a after he hshort
    rw [hsame]
    rcases List.eq_nil_or_concat after with rfl | ⟨after, b, rfl⟩
    · obtain ⟨rfl, hab⟩ := List.append_inj' he rfl
      cases hab
      have hseen : w'.seen_eos = true := hstop.resolve_right (by dsimp only at hshort; omega)
      rwa [C.at_end st' (heos ▸ hseen), List.append_nil] at hsplit
    · rw [List.concat_eq_append, ← List.cons_append, ← List.append_assoc] at he
      exact h.short before a after (List.append_inj' he rfl).1 hshort

theorem session_between {body : Bytes} {fuel : Nat} : ∀ (calls : List Call) {st : C.State} {w : Worker}
    {answers : List Answer}, Between C body st w answers → ∀ {w' : Worker} {st' : C.State} {as : List Answer},
    session C.toInputFilters fuel st w calls = some (w', st', as) → Between C body st' w' (answers ++ as)
  | [], _, _, _, h, _, _, _, he => by cases he; simpa using h
  | c :: calls, st, w, answers, h, w', st', as, he => by
    unfold session at he
    split at he
    · cases he
    · rename_i read buffer w₁ st₁ hr
      obtain ⟨⟨w₂, st₂, as₂⟩, hs, heq⟩ := Option.map_eq_some_iff.mp he
      simp only [Prod.mk.injEq] at heq
      obtain ⟨rfl, rfl, rfl⟩ := heq
      have := session_between calls (readEntityBody_between C h c hr) hs
      simpa using this

theorem readEntityBody_mono (F : InputFilters) {fuel : Nat} (more : Nat) {st : F.State} {w : Worker} {buffer : Bytes}
    {size : Int} {r : Nat × Bytes × Worker × F.State} (h : readEntityBody F fuel st w buffer size = some r) :
    readEntityBody F (fuel + more) st w buffer size = some r := by
  unfold readEntityBody at h ⊢
  split
  · rename_i hb; rwa [if_pos hb] at h
  · rename_i hb
    rw [if_neg hb] at h
    obtain ⟨r', hr', rfl⟩ := Option.map_eq_some_iff.mp h
    exact Option.map_eq_some_iff.mpr ⟨r', internalRead_mono F fuel more st _ hr', rfl⟩

theorem session_mono (F : InputFilters) {fuel : Nat} (more : Nat) : ∀ (calls : List Call) {st : F.State} {w : Worker}
    {r : Worker × F.State × List Answer}, session F fuel st w calls = some r →
    session F (fuel + more) st w calls = some r
  | [], _, _, _, h => h
  | c :: calls, st, w, r, h => by
    unfold session at h ⊢
    split at h
    · cases h
    · rename_i read buffer w₁ st₁ hr
      rw [readEntityBody_mono F more hr]
      obtain ⟨r', hs, rfl⟩ := Option.map_eq_some_iff.mp h
      dsimp only
      rw [session_mono F more calls hs, Option.map_some]

/-- On filters that make progress every sequence of calls returns. -/
theorem session_returns (hC : C.Progresses) : ∀ (calls : List Call) (st : C.State) (w : Worker),
    ∃ fuel r, session C.toInputFilters fuel st w calls = some r
  | [], _, _ => ⟨0, _, rfl⟩
  | c :: calls, st, w => by
    have hpos := c.pos
    have hfits := c.fits
    have hint := c.int32
    obtain ⟨fuel, ⟨rv, s, st'⟩, hr⟩ := internalRead_returns C hC st
      ⟨⟨⟨c.buffer, 0, (c.size % 2 ^ 32).toNat⟩, 0, w.seen_eos⟩, 0⟩
      (by simp only [Dest.Fits]; omega) (by dsimp only; omega)
    have hread : ∃ r, readEntityBody C.toInputFilters fuel st w c.buffer c.size = some r := by
      unfold readEntityBody
      rw [if_neg (by omega)]
      exact ⟨_, Option.map_eq_some_iff.mpr ⟨_, hr, rfl⟩⟩
    obtain ⟨⟨read, buffer, w', st''⟩, hread⟩ := hread
    obtain ⟨fuel', r', hs⟩ := session_returns hC calls st'' w'
    refine ⟨fuel + fuel', (r'.1, r'.2.1, ⟨c.size, read, buffer⟩ :: r'.2.2), ?_⟩
    unfold session
    rw [readEntityBody_mono _ fuel' hread]
    dsimp only
    rw [Nat.add_comm, session_mono _ fuel calls hs]
    rfl

/-- For every body, every way the filters cut it and every sequence of calls,
what ASP.NET is given is the body. -/
theorem body_reassembled (st : C.State) (calls : List Call) : ComesThrough C st calls := by
  obtain ⟨w, st', hpre, hb⟩ := preread_between C st
  constructor
  · intro fuel w' st'' answers h
    unfold request at h
    rw [hpre] at h
    exact (session_between C calls hb h).reassembled
  · intro hC
    obtain ⟨fuel, r, h⟩ := session_returns C hC calls st' w
    refine ⟨fuel, r, ?_⟩
    unfold request
    rw [hpre]
    exact h

end

/-- A preread of two bytes, a call that fills its buffer and one that meets the
end of the body. -/
example : (request (pieces 1).toInputFilters 3 (some [1, 2, 3, 4, 5])
      [⟨[0, 0], 2, by decide, by decide, by decide⟩, ⟨[0, 0, 0, 0], 4, by decide, by decide, by decide⟩]).map
    (fun r => (r.1.preread_body, r.2.2.map Answer.returned)) = some ([1, 2], [[3, 4], [5]]) := by
  decide

end ModAspNet.L5.Body
