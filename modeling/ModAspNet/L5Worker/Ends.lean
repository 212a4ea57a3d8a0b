import ModAspNet.L5Worker.Body
import ModAspNet.L5Worker.CopyLoops

/-!
# Does reading the body end?

"The bucket brigade will be empty when there is nothing left to get", says
`apache2_4_include/util_filter.h:286` of `ap_get_brigade`. The loop of
`InternalReadEntityBody` does not ask whether a brigade is empty: only an EOS
bucket, a full buffer or a failure ends it.

`DocumentedChain` is a chain of filters that keeps this contract. It may send
an EOS bucket after the last byte, and it may fail at any time.

* `returns_of_comes`: bytes enough, EOS or a failure to come: the loop ends.
* `spins_of_dry`: otherwise it asks for ever.
* `reading_ends_iff`: every call of a request returns exactly when each is made
  while one of the three is still to come, or EOS was seen.
* `reading_ends_eos`: on filters that send EOS and never fail, that is always.
-/
namespace ModAspNet.L5.Body

open ModAspNet.L1.CStr ModAspNet.L1.Managed

/-! ## The documented contract -/

/-- No read fails before the EOS bucket. -/
def ReadsThrough (bb : List Bucket) : Prop :=
  ∀ pre rv h left known post, bb = pre ++ .broken rv h left known :: post → .eos ∈ pre

/-- What a brigade brings, asked for `n` bytes with `rest` of the body and, if
`due`, an EOS bucket left to get. -/
structure Serves (n : Nat) (bb : List Bucket) (rest rest' : Bytes) (due due' : Bool) (idle idle' : Nat) : Prop where
  bounded : (dataOf bb).length ≤ n
  eos : .eos ∈ bb → due = true ∧ due' = false ∧ rest' = []
  data : .eos ∉ bb → due' = due ∧ dataOf bb ++ rest' = rest
  /-- "Empty when there is nothing left to get." -/
  empty : rest = [] → due = false → bb = []
  /-- `APR_BLOCK_READ` waits: something that is left comes after finitely many
  brigades without it. -/
  waits : .eos ∉ bb → dataOf bb = [] → rest ≠ [] ∨ due = true → idle' < idle

/-- Filters that keep the contract, until they fail. -/
structure DocumentedChain extends InputFilters where
  rest : State → Bytes
  eosDue : State → Bool
  idle : State → Nat
  serves : ∀ st n bb st', 0 < n → getBrigade st n = (.ok bb, st') → ReadsThrough bb →
    Serves n bb (rest st) (rest st') (eosDue st) (eosDue st') (idle st) (idle st')

/-! ## One turn of the loop -/

section
variable (F : InputFilters)

/-- `InternalReadEntityBody` ends. -/
def Returns (st : F.State) (s : ReadState) : Prop := ∃ fuel r, internalReadEntityBody F fuel st s = some r

theorem returns_of_error {st st' : F.State} {s : ReadState} {rv : Int}
    (h : F.getBrigade st (sizeOne s) = (.error rv, st')) : Returns F st s := by
  rw [sizeOne] at h
  exact ⟨1, (rv, s, st'), by simp only [internalReadEntityBody, h]⟩

theorem returns_of_stop {st st' : F.State} {s : ReadState} {bb : List Bucket}
    (h : F.getBrigade st (sizeOne s) = (.ok bb, st'))
    (hstop : (readBrigade bb s).1 ≠ 0 ∨ (readBrigade bb s).2.seen_eos = true ∨ (readBrigade bb s).2.dest.size = 0) :
    Returns F st s := by
  rw [sizeOne] at h
  refine ⟨1, ?_⟩
  simp only [internalReadEntityBody, h]
  by_cases hrv : (readBrigade bb s).1 = 0
  · have hend : ¬ (!(readBrigade bb s).2.seen_eos ∧ (readBrigade bb s).2.dest.size > 0) := by
      rcases hstop.resolve_left (not_not.mpr hrv) with heos | hsize
      · simp [heos]
      · omega
    rw [if_neg (not_not.mpr hrv), if_neg hend]
    exact ⟨_, rfl⟩
  · rw [if_pos hrv]
    exact ⟨_, rfl⟩

/-- A turn that ends nothing. -/
theorem internalRead_goesOn {st st' : F.State} {s s' : ReadState} {bb : List Bucket}
    (h : F.getBrigade st (sizeOne s) = (.ok bb, st')) (hread : readBrigade bb s = (0, s'))
    (heos : s'.seen_eos = false) (hsize : 0 < s'.dest.size) (fuel : Nat) :
    internalReadEntityBody F (fuel + 1) st s = internalReadEntityBody F fuel st' s' := by
  rw [sizeOne] at h
  simp only [internalReadEntityBody, h, hread, ne_eq, not_true_eq_false, if_false, heos, Bool.not_false, true_and,
    gt_iff_lt, hsize, if_true]

end

/-- A failed read ends the loop over a brigade, and so does EOS. -/
theorem readBrigade_ends : ∀ (bb : List Bucket) (s : ReadState), ¬ Clean bb →
    (readBrigade bb s).1 ≠ 0 ∨ (readBrigade bb s).2.seen_eos = true
  | [], _, h => absurd ⟨List.not_mem_nil, by simp⟩ h
  | .eos :: _, _, _ => .inr rfl
  | .broken _ hrv _ _ :: _, _, _ => .inl hrv
  | .flush :: bb, s, h => readBrigade_ends bb s fun hc => h (clean_cons.mpr ⟨by simp, id, hc⟩)
  | .data d :: bb, s, h => readBrigade_ends bb (s.copy d) fun hc => h (clean_cons.mpr ⟨by simp, id, hc⟩)

/-- EOS seen stays seen. -/
theorem readBrigade_seen : ∀ (bb : List Bucket) (s : ReadState), s.seen_eos = true →
    (readBrigade bb s).2.seen_eos = true
  | [], _, h => h
  | .eos :: _, _, _ => rfl
  | .broken _ _ _ _ :: _, _, h => h
  | .flush :: bb, s, h => readBrigade_seen bb s h
  | .data d :: bb, s, h => readBrigade_seen bb (s.copy d) (by unfold ReadState.copy; dsimp only; split <;> exact h)

theorem Clean.wellFormed {bb : List Bucket} (h : Clean bb) : WellFormed bb where
  readable rv hrv left known hm := h.2 _ hm trivial
  eos_last pre post he := absurd (by rw [he]; simp) h.1

theorem Clean.readsThrough {bb : List Bucket} (h : Clean bb) : ReadsThrough bb :=
  fun pre rv hrv left known post he => absurd trivial (h.2 (.broken rv hrv left known) (by rw [he]; simp))

/-- A brigade that is not clean has EOS, or a read that fails before it. -/
theorem eos_or_failure {bb : List Bucket} (h : ¬ Clean bb) : .eos ∈ bb ∨ ¬ ReadsThrough bb := by
  by_cases heos : .eos ∈ bb
  · exact .inl heos
  · refine .inr fun hthrough => h ⟨heos, fun b hb hf => ?_⟩
    cases b with
    | broken rv hrv left known =>
      obtain ⟨pre, post, he⟩ := List.append_of_mem hb
      exact heos (by rw [he]; exact List.mem_append_left _ (hthrough pre rv hrv left known post he))
    | _ => exact hf

section
variable (C : DocumentedChain)

/-- A clean brigade is read whole, and moves the body on. -/
theorem clean_turn {st st' : C.State} {s : ReadState} {bb : List Bucket} (hf : s.dest.Fits) (hpos : 0 < s.dest.size)
    (hget : C.getBrigade st (sizeOne s) = (.ok bb, st')) (hc : Clean bb) :
    Serves (sizeOne s) bb (C.rest st) (C.rest st') (C.eosDue st) (C.eosDue st') (C.idle st) (C.idle st') ∧
      ∃ s', readBrigade bb s = (0, s') ∧ s'.dest.Fits ∧ s'.seen_eos = s.seen_eos ∧
        s'.dest.size + (dataOf bb).length = s.dest.size := by
  have hserves := C.serves st _ bb st' (sizeOne_pos hpos) hget hc.readsThrough
  obtain ⟨s', hread, -, hreads⟩ := readBrigade_reads bb s hc.wellFormed hf
    (le_trans hserves.bounded (sizeOne_le s))
  have heos : hasEos bb = false := decide_eq_false hc.1
  refine ⟨hserves, s', hread, hreads.dest.fits hf, ?_, hreads.dest.size⟩
  rw [hreads.seen_eos, heos, Bool.or_false]

/-! ## The loop ends -/

/-- The filters fail while they are asked for `n` bytes. -/
inductive FailsWithin : C.State → Nat → Prop
  | status {st st' n rv} : C.getBrigade st (min HUGE_STRING_LEN n) = (.error rv, st') → FailsWithin st n
  | read {st st' n bb} : C.getBrigade st (min HUGE_STRING_LEN n) = (.ok bb, st') → ¬ ReadsThrough bb → FailsWithin st n
  | later {st st' n bb} : C.getBrigade st (min HUGE_STRING_LEN n) = (.ok bb, st') → Clean bb →
    (dataOf bb).length < n → FailsWithin st' (n - (dataOf bb).length) → FailsWithin st n

theorem sizeOne_eq (s : ReadState) : sizeOne s = min HUGE_STRING_LEN s.dest.size := by
  unfold sizeOne; split <;> omega

/-- With EOS to come, or bytes enough, the loop ends: the rest of the body
shrinks, or the filters idle one time less. -/
theorem returns_of_due (st : C.State) (s : ReadState) (hf : s.dest.Fits) (hpos : 0 < s.dest.size)
    (hdue : C.eosDue st = true ∨ s.dest.size ≤ (C.rest st).length) : Returns C.toInputFilters st s := by
  cases hget : C.getBrigade st (sizeOne s) with
  | mk got st' =>
  cases got with
  | error rv => exact returns_of_error C.toInputFilters hget
  | ok bb =>
    by_cases hc : Clean bb
    · obtain ⟨hserves, s', hread, hf', heos, hsize⟩ := clean_turn C hf hpos hget hc
      obtain ⟨hsame, hrest⟩ := hserves.data hc.1
      have hlen := congrArg List.length hrest
      rw [List.length_append] at hlen
      by_cases hmore : s'.seen_eos = false ∧ 0 < s'.dest.size
      · have hdue' : C.eosDue st' = true ∨ s'.dest.size ≤ (C.rest st').length := by
          rw [hsame]
          exact hdue.imp id fun h => by omega
        have hless : (C.rest st').length < (C.rest st).length ∨
            (C.rest st').length = (C.rest st).length ∧ C.idle st' < C.idle st := by
          by_cases hdata : dataOf bb = []
          · have hleft : C.rest st ≠ [] ∨ C.eosDue st = true := by
              refine hdue.symm.imp (fun h hnil => ?_) id
              rw [hnil] at h
              exact absurd h (by simp; omega)
            exact .inr ⟨by rw [hdata] at hlen; simpa using hlen, hserves.waits hc.1 hdata hleft⟩
          · have := List.length_pos_iff.mpr hdata
            exact .inl (by omega)
        obtain ⟨fuel, r, hr⟩ := returns_of_due st' s' hf' hmore.2 hdue'
        exact ⟨fuel + 1, r, by rw [internalRead_goesOn C.toInputFilters hget hread hmore.1 hmore.2, hr]⟩
      · refine returns_of_stop C.toInputFilters hget (.inr ?_)
        rw [hread]
        dsimp only
        cases hs : s'.seen_eos
        · exact .inr (by simp only [hs, true_and] at hmore; omega)
        · exact .inl rfl
    · exact returns_of_stop C.toInputFilters hget ((readBrigade_ends bb s hc).imp id .inl)
termination_by ((C.rest st).length, C.idle st)
decreasing_by
  rcases hless with h | ⟨h, h'⟩
  · exact Prod.Lex.left _ _ h
  · rw [h]; exact Prod.Lex.right _ h'

/-- A failure ends the loop. -/
theorem returns_of_fails {st : C.State} {n : Nat} (h : FailsWithin C st n) : ∀ s : ReadState, s.dest.Fits →
    s.dest.size = n → 0 < n → Returns C.toInputFilters st s := by
  induction h with
  | status hget =>
    intro s _ hn _
    rw [← hn, ← sizeOne_eq] at hget
    exact returns_of_error C.toInputFilters hget
  | @read st st' n bb hget hthrough =>
    intro s _ hn _
    rw [← hn, ← sizeOne_eq] at hget
    have hc : ¬ Clean bb := fun hc => hthrough hc.readsThrough
    exact returns_of_stop C.toInputFilters hget ((readBrigade_ends bb s hc).imp id .inl)
  | later hget hc hlt _ ih =>
    intro s hf hn hpos
    rw [← hn, ← sizeOne_eq] at hget
    obtain ⟨-, s', hread, hf', heos, hsize⟩ := clean_turn C hf (by omega) hget hc
    cases hs : s'.seen_eos
    · obtain ⟨fuel, r, hr⟩ := ih s' hf' (by omega) (by omega)
      exact ⟨fuel + 1, r, by rw [internalRead_goesOn C.toInputFilters hget hread hs (by omega), hr]⟩
    · exact returns_of_stop C.toInputFilters hget (.inr (.inl (by rw [hread]; exact hs)))

/-- EOS was seen: one turn. -/
theorem returns_of_seen (F : InputFilters) (st : F.State) {s : ReadState} (hs : s.seen_eos = true) : Returns F st s := by
  cases hget : F.getBrigade st (sizeOne s) with
  | mk got st' =>
  cases got with
  | error rv => exact returns_of_error F hget
  | ok bb => exact returns_of_stop F hget (.inr (.inl (readBrigade_seen bb s hs)))

/-- What is asked for comes: EOS was seen or is still to come, as many bytes are
left, or the filters fail. -/
def Comes (st : C.State) (seen : Bool) (n : Nat) : Prop :=
  seen = true ∨ C.eosDue st = true ∨ n ≤ (C.rest st).length ∨ FailsWithin C st n

theorem returns_of_comes {st : C.State} {s : ReadState} (hf : s.dest.Fits) (hpos : 0 < s.dest.size)
    (h : Comes C st s.seen_eos s.dest.size) : Returns C.toInputFilters st s := by
  rcases h with hs | hdue | hlen | hfail
  · exact returns_of_seen C.toInputFilters st hs
  · exact returns_of_due C st s hf hpos (.inl hdue)
  · exact returns_of_due C st s hf hpos (.inr hlen)
  · exact returns_of_fails C hfail s hf rfl hpos

/-- Nothing of it comes: every turn is followed by another. -/
theorem spins_of_dry : ∀ (fuel : Nat) (st : C.State) (s : ReadState), s.dest.Fits → 0 < s.dest.size →
    ¬ Comes C st s.seen_eos s.dest.size → internalReadEntityBody C.toInputFilters fuel st s = none
  | 0, _, _, _, _, _ => rfl
  | fuel + 1, st, s, hf, hpos, h => by
    unfold Comes at h
    obtain ⟨hseen, hdue, hlen, hfail⟩ : ¬ s.seen_eos = true ∧ ¬ C.eosDue st = true ∧
        ¬ s.dest.size ≤ (C.rest st).length ∧ ¬ FailsWithin C st s.dest.size := by tauto
    cases hget : C.getBrigade st (sizeOne s) with
    | mk got st' =>
    have hget' := hget
    rw [sizeOne_eq] at hget'
    cases got with
    | error rv => exact absurd (.status hget') hfail
    | ok bb =>
      by_cases hc : Clean bb
      · obtain ⟨hserves, s', hread, hf', heos, hsize⟩ := clean_turn C hf hpos hget hc
        obtain ⟨hsame, hrest⟩ := hserves.data hc.1
        have hless := congrArg List.length hrest
        rw [List.length_append] at hless
        have hs' : s'.seen_eos = false := by rw [heos]; simpa using hseen
        rw [internalRead_goesOn C.toInputFilters hget hread hs' (by omega)]
        refine spins_of_dry fuel st' s' hf' (by omega) ?_
        rintro (hs | hd | hl | hfail')
        · exact absurd (hs'.symm.trans hs) (by simp)
        · exact hdue (hsame ▸ hd)
        · omega
        · have hn : s'.dest.size = s.dest.size - (dataOf bb).length := by omega
          rw [hn] at hfail'
          exact hfail (.later hget' hc (by omega) hfail')
      · by_cases hthrough : ReadsThrough bb
        · -- EOS would have been due
          have heos := (eos_or_failure hc).resolve_right (not_not.mpr hthrough)
          exact absurd ((C.serves st _ bb st' (sizeOne_pos hpos) hget hthrough).eos heos).1 hdue
        · exact absurd (.read hget' hthrough) hfail

/-! ## A request -/

/-- `ReadEntityBody` returns, after finitely many brigades. -/
def CallReturns (st : C.State) (w : Worker) (c : Call) : Prop :=
  ∃ fuel r, readEntityBody C.toInputFilters fuel st w c.buffer c.size = some r

theorem callReturns_iff (st : C.State) (w : Worker) (c : Call) :
    CallReturns C st w c ↔ Comes C st w.seen_eos c.size.toNat := by
  have hpos := c.pos
  have hfits := c.fits
  have hint := c.int32
  have hsize : (c.size % 2 ^ 32).toNat = c.size.toNat := by omega
  have hstart : ∀ fuel, readEntityBody C.toInputFilters fuel st w c.buffer c.size = none ↔
      internalReadEntityBody C.toInputFilters fuel st ⟨⟨⟨c.buffer, 0, c.size.toNat⟩, 0, w.seen_eos⟩, 0⟩ = none := by
    intro fuel
    unfold readEntityBody
    rw [if_neg (by omega), hsize, Option.map_eq_none_iff]
  have hf : Dest.Fits ⟨c.buffer, 0, c.size.toNat⟩ := by unfold Dest.Fits; dsimp only; omega
  have hn : 0 < c.size.toNat := by omega
  constructor
  · rintro ⟨fuel, r, hr⟩
    by_contra hdry
    have := (hstart fuel).mpr (spins_of_dry C fuel st ⟨⟨⟨c.buffer, 0, c.size.toNat⟩, 0, w.seen_eos⟩, 0⟩ hf hn hdry)
    rw [hr] at this
    cases this
  · intro h
    obtain ⟨fuel, r, hr⟩ := returns_of_comes C (s := ⟨⟨⟨c.buffer, 0, c.size.toNat⟩, 0, w.seen_eos⟩, 0⟩) hf hn h
    cases hres : readEntityBody C.toInputFilters fuel st w c.buffer c.size with
    | none => rw [(hstart fuel).mp hres] at hr; cases hr
    | some r => exact ⟨fuel, r, hres⟩

/-- The state of a request after its preread and the calls `before`. -/
def Reached (st : C.State) (before : List Call) (w : Worker) (st' : C.State) : Prop :=
  ∃ fuel answers, request C.toInputFilters fuel st before = some (w, st', answers)

/-- Each call of the request returns, in whatever state the calls before it left. -/
def EveryCallReturns (st : C.State) (calls : List Call) : Prop :=
  ∀ before c, before ++ [c] <+: calls → ∀ w st', Reached C st before w st' → CallReturns C st' w c

/-- Each call of the request is made in a state in which what it asks for comes. -/
def EveryCallComes (st : C.State) (calls : List Call) : Prop :=
  ∀ before c, before ++ [c] <+: calls → ∀ w st', Reached C st before w st' → Comes C st' w.seen_eos c.size.toNat

/-- In every run of a request, on filters that keep the documented contract. -/
theorem reading_ends_iff (st : C.State) (calls : List Call) : EveryCallReturns C st calls ↔ EveryCallComes C st calls := by
  refine forall_congr' fun before => forall_congr' fun c => ?_
  exact forall_congr' fun _ => forall_congr' fun w => forall_congr' fun st' => forall_congr' fun _ =>
    callReturns_iff C st' w c

/-! ## Filters that send EOS -/

/-- The filters never fail. -/
def Healthy : Prop :=
  ∀ st n, 0 < n → ∃ bb st', C.getBrigade st n = (.ok bb, st') ∧ ∀ b ∈ bb, ¬ b.Failed

theorem not_failsWithin (hC : Healthy C) {st : C.State} {n : Nat} (h : FailsWithin C st n) : 0 < n → False := by
  have hask : ∀ {n}, 0 < n → 0 < min HUGE_STRING_LEN n := fun hn => by unfold HUGE_STRING_LEN; omega
  induction h with
  | status hget =>
    intro hn
    obtain ⟨bb, st', hok, -⟩ := hC _ _ (hask hn)
    rw [hget] at hok
    cases hok
  | read hget hthrough =>
    intro hn
    obtain ⟨bb, st', hok, hbb⟩ := hC _ _ (hask hn)
    rw [hget] at hok
    cases hok
    refine hthrough fun pre rv hrv left known post he => ?_
    exact absurd trivial (hbb (.broken rv hrv left known) (by rw [he]; simp))
  | later _ _ hlt _ ih =>
    intro _
    exact ih (by omega)

/-- EOS is still to come, or was seen. -/
def EosAhead (st : C.State) (seen : Bool) : Prop := C.eosDue st = true ∨ seen = true

theorem eos_prereadBrigade : ∀ (bb : List Bucket) (s : PrereadState), .eos ∈ bb → (prereadBrigade bb s).seen_eos = true
  | .eos :: _, _, _ => rfl
  | .flush :: bb, s, h => eos_prereadBrigade bb s ((List.mem_cons.mp h).resolve_left (by simp))
  | .data d :: bb, s, h => eos_prereadBrigade bb (s.copy d) ((List.mem_cons.mp h).resolve_left (by simp))
  | .broken _ _ left _ :: bb, s, h =>
    eos_prereadBrigade bb (PrereadState.copy _ left) ((List.mem_cons.mp h).resolve_left (by simp))

/-- A brigade without failures: EOS stays due, or a loop over it sees EOS. -/
theorem eos_brigade {st st' : C.State} {n : Nat} (hn : 0 < n) {bb : List Bucket} (hget : C.getBrigade st n = (.ok bb, st'))
    (hbb : ∀ b ∈ bb, ¬ b.Failed) (hdue : C.eosDue st = true) : C.eosDue st' = true ∨ .eos ∈ bb := by
  by_cases heos : .eos ∈ bb
  · exact .inr heos
  · have hc : Clean bb := ⟨heos, hbb⟩
    exact .inl (((C.serves st n bb st' hn hget hc.readsThrough).data heos).1.trans hdue)

theorem eos_readBrigade {bb : List Bucket} (hbb : ∀ b ∈ bb, ¬ b.Failed) (heos : .eos ∈ bb) (s : ReadState) :
    (readBrigade bb s).2.seen_eos = true := by
  induction bb generalizing s with
  | nil => cases heos
  | cons b bb ih =>
    obtain ⟨hb, hrest⟩ := List.forall_mem_cons.mp hbb
    cases b with
    | eos => rfl
    | flush => exact ih hrest ((List.mem_cons.mp heos).resolve_left (by simp)) s
    | data d => exact ih hrest ((List.mem_cons.mp heos).resolve_left (by simp)) (s.copy d)
    | broken rv hrv left known => exact absurd trivial hb

/-- One `InternalReadEntityBody` keeps EOS ahead. -/
theorem eosAhead_internalRead (hC : Healthy C) : ∀ (fuel : Nat) {st : C.State} {s : ReadState}, 0 < s.dest.size →
    EosAhead C st s.seen_eos → ∀ {rv : Int} {s' : ReadState} {st' : C.State},
    internalReadEntityBody C.toInputFilters fuel st s = some (rv, s', st') → EosAhead C st' s'.seen_eos
  | 0, _, _, _, _, _, _, _, h => by cases h
  | fuel + 1, st, s, hpos, hahead, rv, s', st', h => by
    obtain ⟨bb, st₁, hget, hbb⟩ := hC st (sizeOne s) (sizeOne_pos hpos)
    have hahead' : EosAhead C st₁ (readBrigade bb s).2.seen_eos := by
      rcases hahead with hdue | hseen
      · exact (eos_brigade C (sizeOne_pos hpos) hget hbb hdue).imp id fun heos => eos_readBrigade hbb heos s
      · exact .inr (readBrigade_seen bb s hseen)
    rw [sizeOne] at hget
    unfold internalReadEntityBody at h
    simp only [hget] at h
    split at h
    · cases h
      exact hahead'
    · split at h
      · rename_i hgo
        exact eosAhead_internalRead hC fuel hgo.2 hahead' h
      · cases h
        exact hahead'

/-- EOS is ahead in every state reached. -/
theorem eosAhead_session (hC : Healthy C) {fuel : Nat} : ∀ (calls : List Call) {st : C.State} {w : Worker},
    EosAhead C st w.seen_eos → ∀ {w' : Worker} {st' : C.State} {answers : List Answer},
    session C.toInputFilters fuel st w calls = some (w', st', answers) → EosAhead C st' w'.seen_eos
  | [], _, _, h, _, _, _, he => by cases he; exact h
  | c :: calls, st, w, h, w', st', answers, he => by
    unfold session at he
    split at he
    · cases he
    · rename_i read buffer w₁ st₁ hr
      obtain ⟨⟨w₂, st₂, as⟩, hs, heq⟩ := Option.map_eq_some_iff.mp he
      simp only [Prod.mk.injEq] at heq
      obtain ⟨rfl, rfl, -⟩ := heq
      refine eosAhead_session hC calls ?_ hs
      have hpos := c.pos
      have hint := c.int32
      unfold readEntityBody at hr
      split at hr
      · cases hr
        exact h
      · obtain ⟨⟨rv, s, st₃⟩, hread, hres⟩ := Option.map_eq_some_iff.mp hr
        simp only [Prod.mk.injEq] at hres
        obtain ⟨-, -, rfl, rfl⟩ := hres
        exact eosAhead_internalRead C hC fuel (by dsimp only; omega) h hread

/-- On filters that send EOS, and never fail, every call returns. -/
theorem reading_ends_eos (hC : Healthy C) (st : C.State) (hdue : C.eosDue st = true) (calls : List Call) :
    EveryCallReturns C st calls := by
  rintro before c - w st' ⟨fuel, answers, hreq⟩
  refine (callReturns_iff C st' w c).mpr ?_
  obtain ⟨bb, st₁, hget, hbb⟩ := hC st 49152 (by omega)
  unfold request handlerPreread at hreq
  rw [hget] at hreq
  have hstart : EosAhead C st₁ (prereadBrigade bb (newWorker.startPreread (prereadSize bb))).worker.seen_eos :=
    (eos_brigade C (by omega) hget hbb hdue).imp id fun heos => eos_prereadBrigade bb _ heos
  exact (eosAhead_session C hC before hstart hreq).elim (fun hd => .inr (.inl hd)) .inl

end

/-! ## Filters that send no EOS -/

/-- The body in brigades of one bucket, and then empty brigades. -/
def plainChain : DocumentedChain where
  State := Bytes
  getBrigade st n := (.ok (if st = [] then [] else [.data (st.take n)]), st.drop n)
  rest := id
  eosDue _ := false
  idle _ := 0
  serves := by
    intro st n bb st' hn hget _
    obtain ⟨hbb, rfl⟩ := Prod.mk.inj hget
    obtain rfl := Except.ok.inj hbb
    have heos : Bucket.eos ∉ (if st = [] then [] else [Bucket.data (st.take n)]) := by
      split <;> simp
    refine ⟨?_, fun h => absurd h heos, fun _ => ⟨rfl, ?_⟩, fun h _ => if_pos h, fun _ hdata hleft => ?_⟩
    · split
      · exact Nat.zero_le n
      · simp only [dataOf, List.append_nil, List.length_take]; omega
    · split
      · rename_i h
        simp [dataOf, h]
      · simp [dataOf]
    · have hne : st ≠ [] := hleft.resolve_right (by simp)
      rw [if_neg hne] at hdata
      simp only [dataOf, List.append_nil, List.take_eq_nil_iff] at hdata
      rcases hdata with h | h
      · omega
      · exact absurd h hne

theorem plainChain_healthy : Healthy plainChain := by
  intro st n _
  refine ⟨_, _, rfl, ?_⟩
  split <;> simp [Bucket.Failed]

/-- The preread takes the whole body, and the call that looks for its end asks
for ever. -/
theorem reading_spins : ¬ ∀ (C : DocumentedChain) (st : C.State) (calls : List Call), EveryCallReturns C st calls := by
  intro h
  have hcall := h plainChain [1, 2] [⟨[0, 0, 0, 0], 4, by decide, by decide, by decide⟩] [] _ (List.prefix_refl _)
    ⟨[1, 2], false, 2, []⟩ [] ⟨0, [], rfl⟩
  rcases (callReturns_iff plainChain _ _ _).mp hcall with hs | hdue | hlen | hfail
  · cases hs
  · cases hdue
  · exact absurd hlen (by decide)
  · exact not_failsWithin plainChain plainChain_healthy hfail (by decide)

end ModAspNet.L5.Body
