import ModAspNet.L5Worker.Completion

/-!
# The range of a file response

`InternalResponseFromFile` splits a long range into file buckets of at most
`AP_MAX_SENDFILE` bytes, since `apr_size_t` has 32 bits. Whether it splits is
asked of the request's own file, `rr->finfo.size`, and not of the range.

* `splitFile_tiles`: the buckets of the split tile the range, whatever its
  length.
* `splitFile_fits`: their starts stay in 64 bits.
* `file_range_iff`: the brigade covers the range exactly when the request's own
  file is long or the range is short.
-/
namespace ModAspNet.L5.FileRange

open ModAspNet.L5.Completion

/-! ## Ranges and tilings -/

/-- A part of a file that `apr_off_t`, a signed 64-bit integer, can address. -/
structure Range where
  offset : Int
  length : Int
  offset_nonneg : 0 ≤ offset
  length_pos : 0 < length
  end_lt : offset + length < 9223372036854775808

/-- File buckets of `handle` that cover `[lo, hi)` in order, none of them empty
or longer than `AP_MAX_SENDFILE`. -/
def Tiles (handle : Nat) : Int → List OutBucket → Int → Prop
  | lo, [], hi => lo = hi
  | lo, .file h start length :: rest, hi =>
    h = handle ∧ start = lo ∧ 0 < length ∧ length ≤ AP_MAX_SENDFILE ∧ Tiles handle (lo + length) rest hi
  | _, _ :: _, _ => False

/-- File buckets for exactly the range, and one flush bucket. -/
def CoversRange (finfoSize : Int) (a : FileAnswers) (handle : Nat) (range : Range) : Prop :=
  ∃ files, (internalResponseFromFile finfoSize a handle range.offset range.length).1 = some (files ++ [.flush]) ∧
    Tiles handle range.offset files (range.offset + range.length)

/-- The starts of a tiling lie in the range. -/
theorem tiles_start {handle : Nat} : ∀ {files : List OutBucket} {lo hi : Int}, Tiles handle lo files hi →
    lo ≤ hi ∧ ∀ h start length, .file h start length ∈ files → lo ≤ start ∧ start < hi
  | [], lo, hi, h => by
    obtain rfl : lo = hi := h
    simp
  | .file h' start' length' :: rest, lo, hi, h => by
    obtain ⟨-, rfl, hpos, -, hrest⟩ := h
    obtain ⟨hle, hstarts⟩ := tiles_start hrest
    refine ⟨by omega, fun h start length hmem => ?_⟩
    rcases List.mem_cons.mp hmem with heq | hmem
    · obtain ⟨-, rfl, -⟩ := OutBucket.file.inj heq
      omega
    · have := hstarts h start length hmem
      omega
  | .eos :: _, _, _, h => h.elim
  | .flush :: _, _, _, h => h.elim
  | .transient _ :: _, _, _, h => h.elim

/-! ## The split -/

theorem aprSize_of_short {n : Int} (h0 : 0 < n) (h : n ≤ AP_MAX_SENDFILE) : aprSize n = n := by
  unfold aprSize AP_MAX_SENDFILE at *
  omega

/-- A single bucket tiles a range that fits into one. -/
theorem single_tiles {handle : Nat} {start fsize : Int} (h0 : 0 < fsize) (h : fsize ≤ AP_MAX_SENDFILE) :
    Tiles handle start [.file handle start (aprSize fsize)] (start + fsize) := by
  rw [aprSize_of_short h0 h]
  exact ⟨rfl, rfl, h0, h, rfl⟩

/-- Any number of full buckets, and the rest in the last one. -/
theorem splitFile_tiles (handle : Nat) (start fsize : Int) (h0 : 0 < fsize) :
    Tiles handle start (splitFile handle start fsize) (start + fsize) := by
  induction start, fsize using splitFile.induct with
  | case1 start fsize hlong ih =>
    have hrest : 0 < fsize - AP_MAX_SENDFILE := by omega
    unfold splitFile
    rw [if_pos hlong]
    refine ⟨rfl, rfl, by decide, Int.le_refl _, ?_⟩
    have hend : start + AP_MAX_SENDFILE + (fsize - AP_MAX_SENDFILE) = start + fsize := by omega
    rw [← hend]
    exact ih hrest
  | case2 start fsize hshort =>
    unfold splitFile
    rw [if_neg hshort]
    exact single_tiles h0 (by omega)

/-- No addition to `b->start` overflows. -/
theorem splitFile_fits (handle : Nat) (range : Range) {h : Nat} {start length : Int}
    (hmem : .file h start length ∈ splitFile handle range.offset range.length) :
    0 ≤ start ∧ start < 9223372036854775808 := by
  obtain ⟨-, hstarts⟩ := tiles_start (splitFile_tiles handle range.offset range.length range.length_pos)
  have hin := hstarts h start length hmem
  have := range.offset_nonneg
  have := range.end_lt
  omega

/-- What is passed on for a range, when the file handle was accepted. -/
theorem internalResponseFromFile_range {a : FileAnswers} (hput : a.put = 0) (finfoSize : Int) (handle : Nat)
    (range : Range) :
    (internalResponseFromFile finfoSize a handle range.offset range.length).1 =
      some ((if finfoSize > AP_MAX_SENDFILE then splitFile handle range.offset range.length
        else [.file handle range.offset (aprSize range.length)]) ++ [.flush]) := by
  have hlen : range.length ≠ 0 := by have := range.length_pos; omega
  unfold internalResponseFromFile
  simp only [hput, hlen, ne_eq, not_true_eq_false, if_false, false_and]

/-! ## The theorem -/

/-- For every range, every file of the request and every accepted handle: the
buckets cover exactly the range exactly when the request's own file is longer
than `AP_MAX_SENDFILE`, or the range is not. -/
theorem file_range_iff (finfoSize : Int) (a : FileAnswers) (hput : a.put = 0) (handle : Nat) (range : Range) :
    CoversRange finfoSize a handle range ↔ finfoSize > AP_MAX_SENDFILE ∨ range.length ≤ AP_MAX_SENDFILE := by
  unfold CoversRange
  rw [internalResponseFromFile_range hput]
  constructor
  · rintro ⟨files, heq, htiles⟩
    by_cases hbig : finfoSize > AP_MAX_SENDFILE
    · exact .inl hbig
    · -- one bucket: it can cover the range only if the range fits into it
      rw [if_neg hbig, Option.some.injEq, List.append_left_inj] at heq
      subst heq
      obtain ⟨-, -, -, hle, hend⟩ := htiles
      have : range.offset + aprSize range.length = range.offset + range.length := hend
      exact .inr (by omega)
  · intro h
    refine ⟨_, rfl, ?_⟩
    split
    · exact splitFile_tiles handle range.offset range.length range.length_pos
    · rename_i hsmall
      exact single_tiles range.length_pos (h.resolve_left hsmall)

/-- All calls succeed, and the handle is of a file of 5 GiB. -/
def allWell : FileAnswers := ⟨0, 0, 5368709120, 0⟩

/-- The whole of a file of 5 GiB, sent from a request for that file. -/
theorem file_range_long : CoversRange 5368709120 allWell 3 ⟨0, 5368709120, by decide, by decide, by decide⟩ :=
  (file_range_iff 5368709120 allWell rfl 3 ⟨0, 5368709120, by decide, by decide, by decide⟩).mpr (.inl (by decide))

/-- 4 GiB sent from a request for a small page: one bucket of no bytes. -/
theorem file_range_lost : ¬ ∀ (finfoSize : Int) (a : FileAnswers) (handle : Nat) (range : Range), a.put = 0 →
    CoversRange finfoSize a handle range := by
  intro h
  obtain ⟨files, heq, htiles⟩ := h 1024 allWell 3 ⟨0, 4294967296, by decide, by decide, by decide⟩ rfl
  have hone : (internalResponseFromFile 1024 allWell 3 0 4294967296).1 = some [.file 3 0 0, .flush] := by decide +kernel
  obtain rfl : files = [.file 3 0 0] := List.append_left_injective [.flush] (Option.some.inj (heq.symm.trans hone))
  obtain ⟨-, -, hpos, -⟩ := htiles
  exact absurd hpos (by decide)

end ModAspNet.L5.FileRange
