import Mathlib.Algebra.GroupWithZero.Nat
import Mathlib.Data.List.Forall2
import ModAspNet.L5Worker.Ends

/-!
# Every byte of the body is accounted for

Whatever the filters do, bring more than was asked for, data behind EOS, reads
that fail, no EOS at all: what is written goes to the places meant for it, what
is counted are bytes the filters brought, in their order, and none of them is
dropped without a line in the log, unless a brigade drops so many that the `int`
which counts them is 0 again.

* `Gave`: the brigades the filters gave.
* `Took`: what reading some brigades does to a buffer.
* `readBrigade_overflow`: the count of what is dropped, wrapped.
* `readBrigade_took`, `prereadBrigade_took`, `internalRead_took`: each loop.
* `body_accounted`: a request, with any sequence of calls.
-/
namespace ModAspNet.L5.Body

open ModAspNet.L1.CStr ModAspNet.L1.Managed

/-! ## What the filters gave -/

/-- From state to state, with the brigades given on the way; a call may fail. -/
inductive Gave (F : InputFilters) : F.State → List (List Bucket) → F.State → Prop
  | nil {st} : Gave F st [] st
  | brigade {st n bb st₁ bbs st'} (h : F.getBrigade st n = (.ok bb, st₁)) (rest : Gave F st₁ bbs st') :
      Gave F st (bb :: bbs) st'
  | failed {st n rv st₁ bbs st'} (h : F.getBrigade st n = (.error rv, st₁)) (rest : Gave F st₁ bbs st') : Gave F st bbs st'

theorem Gave.trans {F : InputFilters} {st st' st'' : F.State} {bbs bbs' : List (List Bucket)} (h : Gave F st bbs st')
    (h' : Gave F st' bbs' st'') : Gave F st (bbs ++ bbs') st'' := by
  induction h with
  | nil => exact h'
  | brigade hget _ ih => exact .brigade hget (ih h')
  | failed hget _ ih => exact .failed hget (ih h')

/-- The data of a brigade up to EOS. -/
def dataBefore (bb : List Bucket) : Bytes := dataOf (bb.takeWhile (· ≠ .eos))

/-- Each brigade has less than 4 GB. -/
def Small (bbs : List (List Bucket)) : Prop := ∀ bb ∈ bbs, (bb.flatMap Bucket.payload).length < 2 ^ 32

theorem Small.left {bbs bbs' : List (List Bucket)} (h : Small (bbs ++ bbs')) : Small bbs :=
  fun bb hb => h bb (List.mem_append_left _ hb)

theorem Small.right {bbs bbs' : List (List Bucket)} (h : Small (bbs ++ bbs')) : Small bbs' :=
  fun bb hb => h bb (List.mem_append_right _ hb)

/-! ## Reading some brigades -/

/-- Nothing behind the cursor is touched. -/
structure Untouched (d d' : Dest) : Prop where
  off : d.off ≤ d'.off
  rest : d'.buf.drop d'.off = d.buf.drop d'.off

theorem Untouched.refl (d : Dest) : Untouched d d := ⟨le_refl _, rfl⟩

theorem Untouched.trans {d d' d'' : Dest} (h : Untouched d d') (h' : Untouched d' d'') : Untouched d d'' := by
  refine ⟨h.off.trans h'.off, ?_⟩
  obtain ⟨n, hn⟩ := Nat.exists_eq_add_of_le h'.off
  rw [h'.rest, hn, ← List.drop_drop, h.rest, List.drop_drop]

/-- `f'` is `f` after the brigades `bbs`; `quiet` says that nothing was wrong
with them. -/
structure Took (f f' : Filling) (bbs : List (List Bucket)) (quiet : Prop) : Prop where
  took : ∃ data eos, Reads f f' data eos ∧ data.Sublist (bbs.flatMap fun bb => bb.flatMap Bucket.payload) ∧
    (eos = true → ∃ bb ∈ bbs, .eos ∈ bb) ∧
    (quiet → (Small bbs → data = bbs.flatMap dataBefore) ∧ ((∃ bb ∈ bbs, .eos ∈ bb) → eos = true))
  untouched : Untouched f.dest f'.dest

theorem Took.none (f : Filling) (quiet : Prop) : Took f f [] quiet :=
  ⟨⟨[], false, .refl f, by simp, by simp, fun _ => by simp⟩, .refl _⟩

theorem Took.weaken {f f' : Filling} {bbs : List (List Bucket)} {quiet quiet' : Prop} (h : Took f f' bbs quiet)
    (hq : quiet' → quiet) : Took f f' bbs quiet' := by
  obtain ⟨⟨data, eos, hr, hsub, heos, hquiet⟩, hun⟩ := h
  exact ⟨⟨data, eos, hr, hsub, heos, fun hq' => hquiet (hq hq')⟩, hun⟩

theorem Took.trans {f f' f'' : Filling} {bbs bbs' : List (List Bucket)} {quiet quiet' : Prop} (h : Took f f' bbs quiet)
    (h' : Took f' f'' bbs' quiet') : Took f f'' (bbs ++ bbs') (quiet ∧ quiet') := by
  obtain ⟨⟨data, eos, hr, hsub, heos, hquiet⟩, hun⟩ := h
  obtain ⟨⟨data', eos', hr', hsub', heos', hquiet'⟩, hun'⟩ := h'
  refine ⟨⟨data ++ data', eos || eos', hr.trans hr', ?_, fun he => ?_, fun ⟨hq, hq'⟩ => ?_⟩, hun.trans hun'⟩
  · rw [List.flatMap_append]
    exact hsub.append hsub'
  · rcases Bool.or_eq_true _ _ ▸ he with he | he
    · obtain ⟨bb, hb, hmem⟩ := heos he
      exact ⟨bb, List.mem_append_left _ hb, hmem⟩
    · obtain ⟨bb, hb, hmem⟩ := heos' he
      exact ⟨bb, List.mem_append_right _ hb, hmem⟩
  · obtain ⟨hd, he⟩ := hquiet hq
    obtain ⟨hd', he'⟩ := hquiet' hq'
    refine ⟨fun hs => ?_, fun ⟨bb, hb, hmem⟩ => ?_⟩
    · rw [List.flatMap_append, hd hs.left, hd' hs.right]
    rw [Bool.or_eq_true]
    exact (List.mem_append.mp hb).imp (fun hb => he ⟨bb, hb, hmem⟩) fun hb => he' ⟨bb, hb, hmem⟩

theorem Took.fits {f f' : Filling} {bbs : List (List Bucket)} {quiet : Prop} (h : Took f f' bbs quiet)
    (hf : f.dest.Fits) : f'.dest.Fits := by
  obtain ⟨data, eos, hr, -⟩ := h.took
  exact hr.dest.fits hf

/-! ## One bucket -/

/-- The answer to a call is in its buffer, at the start and no longer than it
should be, and the rest of the buffer is as it was. -/
structure Placed (c : Call) (a : Answer) : Prop where
  size : a.size = c.size
  within : (a.read : Int) ≤ c.size
  buffer : a.buffer = a.returned ++ c.buffer.drop a.read

/-- From worker `w` to `w'`, by calls that were given the brigades `bbs`. -/
structure Given (w w' : Worker) (bbs : List (List Bucket)) (calls : List Call) (answers : List Answer) : Prop where
  preread : w'.preread_body = w.preread_body
  counted : w'.bytes_read = w.bytes_read + (answers.map Answer.read).sum
  ordered : (answers.flatMap Answer.returned).Sublist (bbs.flatMap fun bb => bb.flatMap Bucket.payload)
  eos : w'.seen_eos = true → w.seen_eos = true ∨ ∃ bb ∈ bbs, .eos ∈ bb
  kept : w.seen_eos = true → w'.seen_eos = true
  log : w.log <+: w'.log
  quiet : w'.log = w.log → (Small bbs → answers.flatMap Answer.returned = bbs.flatMap dataBefore) ∧
    ((∃ bb ∈ bbs, .eos ∈ bb) → w'.seen_eos = true)
  placed : List.Forall₂ Placed calls answers

theorem Given.trans {w w' w'' : Worker} {bbs bbs' : List (List Bucket)} {calls calls' : List Call}
    {answers answers' : List Answer} (h : Given w w' bbs calls answers) (h' : Given w' w'' bbs' calls' answers') :
    Given w w'' (bbs ++ bbs') (calls ++ calls') (answers ++ answers') where
  preread := h'.preread.trans h.preread
  counted := by
    rw [h'.counted, h.counted, List.map_append, List.sum_append]
    omega
  ordered := by
    rw [List.flatMap_append, List.flatMap_append]
    exact h.ordered.append h'.ordered
  eos he := by
    rcases h'.eos he with he | ⟨bb, hb, hm⟩
    · exact (h.eos he).imp_right fun ⟨bb, hb, hm⟩ => ⟨bb, List.mem_append_left _ hb, hm⟩
    · exact .inr ⟨bb, List.mem_append_right _ hb, hm⟩
  kept he := h'.kept (h.kept he)
  log := h.log.trans h'.log
  quiet hlog := by
    have hsame : w'.log = w.log := (h.log.eq_of_length_le (by rw [← hlog]; exact h'.log.length_le)).symm
    obtain ⟨hdata, hmeets⟩ := h.quiet hsame
    obtain ⟨hdata', hmeets'⟩ := h'.quiet (hlog.trans hsame.symm)
    refine ⟨fun hs => ?_, fun ⟨bb, hb, hm⟩ => ?_⟩
    · rw [List.flatMap_append, List.flatMap_append, hdata hs.left, hdata' hs.right]
    rcases List.mem_append.mp hb with hb | hb
    · exact h'.kept (hmeets ⟨bb, hb, hm⟩)
    · exact hmeets' ⟨bb, hb, hm⟩
  placed := List.rel_append h.placed h'.placed

end ModAspNet.L5.Body
