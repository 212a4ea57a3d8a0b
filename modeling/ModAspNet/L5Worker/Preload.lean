import ModAspNet.L5Worker.Body

/-!
# What is preloaded

`GetPreloadedEntityBody` gives ASP.NET what `Handler` read ahead, and
`IsEntireEntityBodyIsPreloaded` whether that was all. The answer is `seen_eos`,
which says that the preread met the EOS bucket, until a `ReadEntityBody` meets
it and sets the same flag.

* `reads_keep`: between calls the flag says whether the filters sent EOS, and
  the preload is what it was.
* `preloaded_truth_iff`: so the answer is right at every moment exactly when
  EOS came with the preread or has not come at all.
-/
namespace ModAspNet.L5.Body

open ModAspNet.L1.CStr

/-- mirrors Apache.Web/WorkerRequest.h:490-499 -/
def getPreloadedEntityBody (w : Worker) : Bytes := w.preread_body

/-- mirrors Apache.Web/WorkerRequest.h:501-510 -/
def isEntireEntityBodyIsPreloaded (w : Worker) : Bool := w.seen_eos

/-! ## Calls -/

/-- A call of `ReadEntityBody`: into an empty array, with any size, or with a
size from 1 to the length of the array. -/
inductive ReadCall where
  | empty (size : Int)
  | into (c : Call)

def ReadCall.run (F : InputFilters) (fuel : Nat) (st : F.State) (w : Worker) : ReadCall → Option (Worker × F.State)
  | .empty size => (readEntityBody F fuel st w [] size).map fun r => (r.2.2.1, r.2.2.2)
  | .into c => (readEntityBody F fuel st w c.buffer c.size).map fun r => (r.2.2.1, r.2.2.2)

def runReads (F : InputFilters) (fuel : Nat) : F.State → Worker → List ReadCall → Option (Worker × F.State)
  | st, w, [] => some (w, st)
  | st, w, c :: calls =>
    match c.run F fuel st w with
    | none => none
    | some (w', st') => runReads F fuel st' w' calls

/-- The worker after the preread and some calls. -/
def afterReads (F : InputFilters) (fuel : Nat) (st : F.State) (calls : List ReadCall) : Option (Worker × F.State) :=
  match handlerPreread F st newWorker with
  | (some _, _, _) => none
  | (none, w, st') => runReads F fuel st' w calls

/-! ## The property -/

/-- The brigade of the preread has the EOS bucket. -/
def PrereadMeetsEos (F : InputFilters) (st : F.State) : Prop :=
  ∃ bb, (F.getBrigade st 49152).1 = .ok bb ∧ .eos ∈ bb

section
variable (C : ReadBytesChain) (st : C.State) (calls : List ReadCall)

/-- At every point of the request the answer is whether the preread met EOS,
and when it is yes the preload is the body. -/
def TellsTruth : Prop :=
  ∀ done, done <+: calls → ∀ fuel w st', afterReads C.toInputFilters fuel st done = some (w, st') →
    (isEntireEntityBodyIsPreloaded w = true ↔ PrereadMeetsEos C.toInputFilters st) ∧
    (isEntireEntityBodyIsPreloaded w = true → getPreloadedEntityBody w = C.rest st)

/-- At no point have the filters sent EOS. -/
def NeverEnds : Prop :=
  ∀ done, done <+: calls → ∀ fuel w st', afterReads C.toInputFilters fuel st done = some (w, st') →
    C.ended st' = false

end

/-! ## One call -/

/-- Where the filters are, as the worker sees it. -/
structure InStep (C : ReadBytesChain) (preload : Bytes) (st : C.State) (w : Worker) : Prop where
  eos : w.seen_eos = C.ended st
  preload : w.preread_body = preload
  quiet : w.log = []

section
variable {C : ReadBytesChain} {preload : Bytes}

/-- What was sent stays sent. -/
theorem readEntityBody_ended {st st' : C.State} {w w' : Worker} (c : Call) {fuel read : Nat} {buffer : Bytes}
    (h : readEntityBody C.toInputFilters fuel st w c.buffer c.size = some (read, buffer, w', st'))
    (he : C.ended st = true) : C.ended st' = true := by
  have hpos := c.pos
  have hfits := c.fits
  have hint := c.int32
  unfold readEntityBody at h
  rw [if_neg (by omega)] at h
  obtain ⟨⟨rv, s, st₁⟩, hread, hres⟩ := Option.map_eq_some_iff.mp h
  obtain ⟨-, -, data, eos, -, -, hended, -⟩ := internalRead_spec C fuel st _
    (by simp only [Dest.Fits]; omega) (by dsimp only; omega) hread
  simp only [Prod.mk.injEq] at hres
  obtain ⟨-, -, -, rfl⟩ := hres
  rw [hended, he, Bool.true_or]

theorem ReadCall.run_keeps {st st' : C.State} {w w' : Worker} {fuel : Nat} (c : ReadCall) (h : InStep C preload st w)
    (hr : c.run C.toInputFilters fuel st w = some (w', st')) :
    InStep C preload st' w' ∧ (C.ended st = true → C.ended st' = true) := by
  cases c with
  | empty size =>
    -- nothing is read
    cases hr
    exact ⟨h, id⟩
  | into c =>
    obtain ⟨⟨read, buffer, w₁, st₁⟩, hread, heq⟩ := Option.map_eq_some_iff.mp hr
    cases heq
    obtain ⟨-, -, -, heos, -, hpre, -, hlog⟩ := readEntityBody_takes C c h.eos h.quiet hread
    exact ⟨⟨heos, hpre.trans h.preload, hlog⟩, readEntityBody_ended c hread⟩

/-- Any number of calls. -/
theorem reads_keep {fuel : Nat} : ∀ (calls : List ReadCall) {st st' : C.State} {w w' : Worker}, InStep C preload st w →
    runReads C.toInputFilters fuel st w calls = some (w', st') →
    InStep C preload st' w' ∧ (C.ended st = true → C.ended st' = true)
  | [], _, _, _, _, h, hr => by cases hr; exact ⟨h, id⟩
  | c :: calls, st, st', w, w', h, hr => by
    unfold runReads at hr
    split at hr
    · cases hr
    · rename_i w₁ st₁ hc
      obtain ⟨h₁, he₁⟩ := c.run_keeps h hc
      obtain ⟨h', he'⟩ := reads_keep calls h₁ hr
      exact ⟨h', he' ∘ he₁⟩

/-! ## A request -/

/-- The filters have sent EOS after the preread exactly when it is in its brigade. -/
theorem preread_inStep (st : C.State) : ∃ w st₁, handlerPreread C.toInputFilters st newWorker = (none, w, st₁) ∧
    InStep C w.preread_body st₁ w ∧ w.preread_body ++ C.rest st₁ = C.rest st ∧
    (C.ended st₁ = true ↔ PrereadMeetsEos C.toInputFilters st) := by
  obtain ⟨w, st₁, hpre, hb⟩ := preread_between C st
  refine ⟨w, st₁, hpre, ⟨hb.eos, rfl, hb.quiet⟩, by simpa [handedOver] using hb.split, ?_⟩
  obtain ⟨bb, st₂, hget, hd⟩ := C.get st (n := 49152) (by omega)
  have hst : st₂ = st₁ := by
    rw [handlerPreread, hget] at hpre
    exact congrArg (fun r => r.2.2) hpre
  subst hst
  have hmeets : PrereadMeetsEos C.toInputFilters st ↔ .eos ∈ bb := by
    simp [PrereadMeetsEos, hget]
  have hlast : C.ended st = true → .eos ∈ bb := fun he => by rw [hd.after_eos he]; exact List.mem_singleton_self _
  rw [hmeets, hd.ended_iff, Bool.or_eq_true, hasEos, decide_eq_true_eq]
  exact ⟨fun h => h.elim hlast id, .inr⟩

/-- For every body, every way the filters cut it and every sequence of calls:
the answer is right throughout exactly when the preread met EOS, or no call did. -/
theorem preloaded_truth_iff (C : ReadBytesChain) (st : C.State) (calls : List ReadCall) :
    TellsTruth C st calls ↔ PrereadMeetsEos C.toInputFilters st ∨ NeverEnds C st calls := by
  obtain ⟨w, st₁, hpre, hin, hsplit, hends⟩ := preread_inStep (C := C) st
  have hrun : ∀ done fuel, afterReads C.toInputFilters fuel st done = runReads C.toInputFilters fuel st₁ w done := by
    intro done fuel; rw [afterReads, hpre]
  constructor
  · intro h
    by_cases hmeets : PrereadMeetsEos C.toInputFilters st
    · exact .inl hmeets
    · refine .inr fun done hd fuel w' st' hr => ?_
      have hin' : InStep C w.preread_body st' w' := (reads_keep done hin (hrun done fuel ▸ hr)).1
      have hno : w'.seen_eos ≠ true := fun ht => hmeets ((h done hd fuel w' st' hr).1.mp ht)
      rw [hin'.eos] at hno
      exact Bool.eq_false_iff.mpr hno
  · intro h done hd fuel w' st' hr
    obtain ⟨hin', hstay⟩ := reads_keep done hin (hrun done fuel ▸ hr)
    have htrue : isEntireEntityBodyIsPreloaded w' = true ↔ PrereadMeetsEos C.toInputFilters st := by
      rw [isEntireEntityBodyIsPreloaded, hin'.eos, ← hends]
      refine ⟨fun he => ?_, hstay⟩
      rcases h with hmeets | hnever
      · exact hends.mpr hmeets
      · rw [hnever done hd fuel w' st' hr] at he; cases he
    refine ⟨htrue, fun ht => ?_⟩
    -- EOS came with the preread: nothing is left after it
    rw [C.at_end st₁ (hends.mpr (htrue.mp ht)), List.append_nil] at hsplit
    rw [getPreloadedEntityBody, hin'.preload, hsplit]

end

/-! ## A body longer than the preload -/

/-- A call for four bytes. -/
def fourBytes : ReadCall := .into ⟨[0, 0, 0, 0], 4, by decide, by decide, by decide⟩

/-- The preread gets two bytes of five, and one call the other three and EOS. -/
theorem preloaded_after_read :
    ¬ ∀ (C : ReadBytesChain) (st : C.State) (calls : List ReadCall), TellsTruth C st calls := by
  intro h
  have hafter : ∃ r, afterReads (pieces 1).toInputFilters 3 (some [1, 2, 3, 4, 5]) [fourBytes] = some r ∧
      isEntireEntityBodyIsPreloaded r.1 = true ∧ getPreloadedEntityBody r.1 = [1, 2] := by
    refine ⟨_, rfl, ?_⟩
    decide
  obtain ⟨⟨w, st'⟩, hr, htrue, hpreload⟩ := hafter
  have hbody := (h (pieces 1) (some [1, 2, 3, 4, 5]) [fourBytes] _ (List.prefix_refl _) 3 w st' hr).2 htrue
  rw [hpreload] at hbody
  revert hbody
  decide

end ModAspNet.L5.Body
