import ModAspNet.L5Worker.Brigade

/-!
# The two copy loops

The preread of `Handler` is "remarkably similar to InternalReadEntityBody", its
comment says. On a failed `apr_bucket_read` the one returns, and the other logs
the failure and copies what `data` and `len` hold.

A `Walk` is what a loop does to a brigade: which bytes it copies from which
bucket, and whether it meets EOS.

* `readBrigade_walks`, `prereadBrigade_walks`: each loop is a walk; they differ
  in whether a failed read ends it.
* `walk_split`: the two walks are one, up to the first failed read.
* `loops_agree_iff`: the loops agree, and nothing comes from a failed read,
  exactly when nothing after the first failed read has an effect.
-/
namespace ModAspNet.L5.Body

open ModAspNet.L1.CStr ModAspNet.L1.Managed

/-! ## Walks -/

/-- The read of the bucket fails. -/
def Bucket.Failed : Bucket → Prop
  | .broken _ _ _ _ => True
  | _ => False

instance (b : Bucket) : Decidable b.Failed := by
  cases b <;> unfold Bucket.Failed <;> infer_instance

/-- What `data` and `len` hold after the read of a bucket. -/
def Bucket.payload : Bucket → Bytes
  | .data d => d
  | .broken _ _ left _ => left
  | _ => []

/-- The copies a loop makes, each with its bucket, and whether it meets EOS. -/
structure Walk where
  copies : List (Bucket × Bytes)
  eos : Bool

def Walk.bytes (w : Walk) : Bytes := w.copies.flatMap Prod.snd

/-- The copies before a walk. -/
def Walk.after (copies : List (Bucket × Bytes)) (w : Walk) : Walk := ⟨copies ++ w.copies, w.eos⟩

/-- Over a brigade with `n` bytes to fill; a failed read ends the walk unless it
`goesOn`. -/
def walk (goesOn : Bool) : List Bucket → Nat → Walk
  | [], _ => ⟨[], false⟩
  | .eos :: _, _ => ⟨[], true⟩
  | .flush :: bb, n => walk goesOn bb n
  | .data d :: bb, n => (walk goesOn bb (n - d.length)).after [(.data d, d.take n)]
  | .broken rv h left known :: bb, n =>
    if goesOn then (walk goesOn bb (n - left.length)).after [(.broken rv h left known, left.take n)] else ⟨[], false⟩

@[simp] theorem Walk.after_bytes (copies : List (Bucket × Bytes)) (w : Walk) :
    (w.after copies).bytes = copies.flatMap Prod.snd ++ w.bytes := List.flatMap_append

@[simp] theorem Walk.after_eos (copies : List (Bucket × Bytes)) (w : Walk) : (w.after copies).eos = w.eos := rfl

/-! ## The loops are walks -/

theorem take_len (d : Bytes) (n : Nat) : d.take (if decide (d.length > n) then n else d.length) = d.take n := by
  split
  · rfl
  · rename_i h
    have : d.length ≤ n := by simpa using h
    rw [List.take_length, List.take_of_length_le this]

theorem len_eq (d : Bytes) (n : Nat) : (if decide (d.length > n) then n else d.length) = (d.take n).length := by
  rw [List.length_take]
  split
  · rename_i h
    have : n < d.length := by simpa using h
    omega
  · rename_i h
    have : d.length ≤ n := by simpa using h
    omega

/-- A bucket of any length, in either loop: what fits of it is copied. -/
theorem reads_copy_take {s : ReadState} (d : Bytes) (hf : s.dest.Fits) :
    Reads s.toFilling (s.copy d).toFilling (d.take s.dest.size) false := by
  unfold ReadState.copy
  dsimp only
  rw [take_len d s.dest.size, len_eq d s.dest.size]
  split
  · exact reads_put hf (by rw [List.length_take]; omega)
  · rename_i h
    rw [not_not.mp h, List.take_zero]
    exact .refl _

theorem prereads_copy_take {s : PrereadState} (d : Bytes) (hf : s.dest.Fits) :
    Reads s.toFilling (s.copy d).toFilling (d.take s.dest.size) false := by
  unfold PrereadState.copy
  dsimp only
  rw [take_len d s.dest.size, len_eq d s.dest.size]
  split
  · exact reads_put hf (by rw [List.length_take]; omega)
  · rename_i h
    rw [not_not.mp h, List.take_zero]
    exact .refl _

/-- What is left to fill after a copy. -/
theorem Reads.size_take {f f' : Filling} {d : Bytes} {e : Bool} (h : Reads f f' (d.take f.dest.size) e) :
    f'.dest.size = f.dest.size - d.length := by
  have := h.dest.size
  rw [List.length_take] at this
  omega

theorem readBrigade_walks : ∀ (bb : List Bucket) (s : ReadState), s.dest.Fits →
    Reads s.toFilling (readBrigade bb s).2.toFilling (walk false bb s.dest.size).bytes (walk false bb s.dest.size).eos
  | [], s, _ => .refl _
  | .eos :: _, s, _ => ⟨.refl _, rfl, by simp [walk, readBrigade]⟩
  | .flush :: bb, s, hf => readBrigade_walks bb s hf
  | .broken rv h left known :: bb, s, _ => .refl _
  | .data d :: bb, s, hf => by
    have hcopy := reads_copy_take d hf
    have hrest := readBrigade_walks bb (s.copy d) (hcopy.dest.fits hf)
    rw [hcopy.size_take] at hrest
    simpa [walk, readBrigade] using hcopy.trans hrest

theorem prereadBrigade_walks : ∀ (bb : List Bucket) (s : PrereadState), s.dest.Fits →
    Reads s.toFilling (prereadBrigade bb s).toFilling (walk true bb s.dest.size).bytes (walk true bb s.dest.size).eos
  | [], s, _ => .refl _
  | .eos :: _, s, _ => ⟨.refl _, rfl, by simp [walk, prereadBrigade]⟩
  | .flush :: bb, s, hf => prereadBrigade_walks bb s hf
  | .broken rv h left known :: bb, s, hf => by
    have hcopy := prereads_copy_take (s := { s with
      log := s.log ++ [wlit "Handler: brigade read failure prereading the request body"] }) left hf
    have hrest := prereadBrigade_walks bb _ (hcopy.dest.fits hf)
    rw [hcopy.size_take] at hrest
    simpa [walk, prereadBrigade] using hcopy.trans hrest
  | .data d :: bb, s, hf => by
    have hcopy := prereads_copy_take d hf
    have hrest := prereadBrigade_walks bb (s.copy d) (hcopy.dest.fits hf)
    rw [hcopy.size_take] at hrest
    simpa [walk, prereadBrigade] using hcopy.trans hrest

/-! ## Up to the first failed read -/

/-- Buckets a loop goes through without stopping: no EOS, and no failed read. -/
def Clean (bb : List Bucket) : Prop := .eos ∉ bb ∧ ∀ b ∈ bb, ¬ b.Failed

theorem clean_cons {b : Bucket} {bb : List Bucket} : Clean (b :: bb) ↔ b ≠ .eos ∧ ¬ b.Failed ∧ Clean bb := by
  unfold Clean
  rw [List.mem_cons, List.forall_mem_cons, not_or, ne_comm]
  tauto

/-- The two walks are one, over a brigade none of whose reads fails before EOS. -/
theorem walk_clean (bb : List Bucket) : ∀ n : Nat,
    (∀ pre rv h left known post, bb = pre ++ .broken rv h left known :: post → .eos ∈ pre) →
    walk true bb n = walk false bb n ∧ ∀ c ∈ (walk false bb n).copies, ¬ c.1.Failed := by
  induction bb with
  | nil => intro n _; exact ⟨rfl, by simp [walk]⟩
  | cons b bb ih =>
    intro n hclean
    have htail : b ≠ .eos → ∀ pre rv h left known post, bb = pre ++ .broken rv h left known :: post → .eos ∈ pre := by
      intro hb pre rv h left known post he
      have hmem := hclean (b :: pre) rv h left known post (by rw [he]; rfl)
      exact (List.mem_cons.mp hmem).resolve_left (Ne.symm hb)
    cases b with
    | eos => exact ⟨rfl, by simp [walk]⟩
    | flush => exact ih n (htail (by simp))
    | data d =>
      obtain ⟨heq, hnone⟩ := ih (n - d.length) (htail (by simp))
      unfold walk
      rw [heq]
      refine ⟨rfl, fun c hc => ?_⟩
      rcases List.mem_cons.mp hc with rfl | hc
      · exact id
      · exact hnone c hc
    | broken rv h left known => exact absurd (hclean [] rv h left known bb rfl) List.not_mem_nil

/-- Up to a first failed read both walks copy the same, and what is left to fill
is short by the data before it. -/
theorem walk_split (goesOn : Bool) {pre : List Bucket} (hpre : Clean pre) (post : List Bucket) (n : Nat) :
    walk goesOn (pre ++ post) n =
      (walk goesOn post (n - (dataOf pre).length)).after (walk false pre n).copies := by
  induction pre generalizing n with
  | nil => rfl
  | cons b pre ih =>
    obtain ⟨hb, hread, hrest⟩ := clean_cons.mp hpre
    cases b with
    | eos => exact absurd rfl hb
    | flush => exact ih hrest n
    | data d =>
      have hsize : n - (dataOf (.data d :: pre)).length = n - d.length - (dataOf pre).length := by
        rw [dataOf, List.length_append]; omega
      rw [hsize, List.cons_append, walk, ih hrest]
      rfl
    | broken rv h left known => exact absurd trivial hread

theorem walk_readable {pre : List Bucket} (hpre : Clean pre) (n : Nat) :
    ∀ c ∈ (walk false pre n).copies, ¬ c.1.Failed := by
  refine (walk_clean pre n fun pre' rv h left known post he => ?_).2
  have hmem : Bucket.broken rv h left known ∈ pre := by rw [he]; simp
  exact absurd trivial (hpre.2 _ hmem)

/-- A brigade without EOS: the walk that goes on copies what fits of everything
that is held, and never meets EOS. -/
theorem walk_noEos : ∀ (bb : List Bucket) (n : Nat), .eos ∉ bb →
    (walk true bb n).eos = false ∧ (walk true bb n).bytes = (bb.flatMap Bucket.payload).take n
  | [], n, _ => ⟨rfl, by simp [walk, Walk.bytes]⟩
  | b :: bb, n, h => by
    rw [List.mem_cons, not_or] at h
    have hcons : ∀ d : Bytes, (d ++ bb.flatMap Bucket.payload).take n =
        d.take n ++ (bb.flatMap Bucket.payload).take (n - d.length) := fun d => List.take_append
    cases b with
    | eos => exact absurd rfl h.1
    | flush => exact walk_noEos bb n h.2
    | data d =>
      obtain ⟨heos, hbytes⟩ := walk_noEos bb (n - d.length) h.2
      refine ⟨heos, ?_⟩
      rw [walk, Walk.after_bytes, hbytes]
      simp [Bucket.payload, hcons]
    | broken rv hrv left known =>
      obtain ⟨heos, hbytes⟩ := walk_noEos bb (n - left.length) h.2
      refine ⟨heos, ?_⟩
      rw [walk, if_pos rfl, Walk.after_bytes, hbytes]
      simp [Bucket.payload, hcons]

theorem walk_eos : ∀ (bb : List Bucket) (n : Nat), .eos ∈ bb → (walk true bb n).eos = true
  | b :: bb, n, h => by
    cases b with
    | eos => rfl
    | flush => exact walk_eos bb n ((List.mem_cons.mp h).resolve_left (by simp))
    | data d => exact walk_eos bb _ ((List.mem_cons.mp h).resolve_left (by simp))
    | broken rv hrv left known => exact walk_eos bb _ ((List.mem_cons.mp h).resolve_left (by simp))

/-! ## The theorem -/

/-- At the start of a buffer with `capacity` bytes to fill. -/
def startFilling (buf : Bytes) (capacity : Nat) : Filling := ⟨⟨buf, 0, capacity⟩, 0, false⟩

/-- Both loops over one brigade, into buffers of their own. -/
structure LoopsAgree (bb : List Bucket) (buf buf' : Bytes) (capacity : Nat) : Prop where
  bytes : (readBrigade bb ⟨startFilling buf capacity, 0⟩).2.dest.written =
    (prereadBrigade bb ⟨startFilling buf' capacity, []⟩).dest.written
  counted : (readBrigade bb ⟨startFilling buf capacity, 0⟩).2.bytes_read =
    (prereadBrigade bb ⟨startFilling buf' capacity, []⟩).bytes_read
  eos : (readBrigade bb ⟨startFilling buf capacity, 0⟩).2.seen_eos =
    (prereadBrigade bb ⟨startFilling buf' capacity, []⟩).seen_eos
  /-- Nothing is copied from a bucket whose read failed. -/
  failed : ∀ goesOn, ∀ c ∈ (walk goesOn bb capacity).copies, c.1.Failed → c.2 = []

/-- After the first failed read comes no EOS bucket, and there is no room left,
or nothing more to copy, what the failed reads leave included. -/
def FailuresHarmless (bb : List Bucket) (capacity : Nat) : Prop :=
  ∀ pre rv h left known post, bb = pre ++ .broken rv h left known :: post → Clean pre →
    .eos ∉ post ∧
      (capacity ≤ (dataOf pre).length ∨ (Bucket.broken rv h left known :: post).flatMap Bucket.payload = [])

/-- A brigade has no failed read before EOS, or a first one. -/
theorem failure_cases (bb : List Bucket) :
    (∀ pre rv h left known post, bb = pre ++ .broken rv h left known :: post → .eos ∈ pre) ∨
      ∃ pre rv h left known post, bb = pre ++ .broken rv h left known :: post ∧ Clean pre := by
  induction bb with
  | nil => exact .inl fun pre rv h left known post he => absurd he (by simp)
  | cons b bb ih =>
    cases b with
    | eos =>
      refine .inl fun pre rv h left known post he => ?_
      cases pre with
      | nil => cases he
      | cons b' pre => cases he; exact List.mem_cons_self
    | broken rv h left known =>
      exact .inr ⟨[], rv, h, left, known, bb, rfl, by simp [Clean]⟩
    | flush =>
      rcases ih with hnone | ⟨pre, rv, h, left, known, post, rfl, hpre⟩
      · refine .inl fun pre rv h left known post he => ?_
        cases pre with
        | nil => cases he
        | cons b' pre => cases he; exact List.mem_cons_of_mem _ (hnone pre rv h left known post rfl)
      · exact .inr ⟨.flush :: pre, rv, h, left, known, post, rfl, clean_cons.mpr ⟨by simp, id, hpre⟩⟩
    | data d =>
      rcases ih with hnone | ⟨pre, rv, h, left, known, post, rfl, hpre⟩
      · refine .inl fun pre rv h left known post he => ?_
        cases pre with
        | nil => cases he
        | cons b' pre => cases he; exact List.mem_cons_of_mem _ (hnone pre rv h left known post rfl)
      · exact .inr ⟨.data d :: pre, rv, h, left, known, post, rfl, clean_cons.mpr ⟨by simp, id, hpre⟩⟩

/-- The outcomes of the loops are those of the walks. -/
theorem loopsAgree_iff_walks (bb : List Bucket) {buf buf' : Bytes} {capacity : Nat} (hbuf : capacity ≤ buf.length)
    (hbuf' : capacity ≤ buf'.length) :
    LoopsAgree bb buf buf' capacity ↔
      (walk false bb capacity).bytes = (walk true bb capacity).bytes ∧
        (walk false bb capacity).eos = (walk true bb capacity).eos ∧
        ∀ goesOn, ∀ c ∈ (walk goesOn bb capacity).copies, c.1.Failed → c.2 = [] := by
  have hread := readBrigade_walks bb ⟨startFilling buf capacity, 0⟩ (by unfold Dest.Fits startFilling; simpa using hbuf)
  have hpre := prereadBrigade_walks bb ⟨startFilling buf' capacity, []⟩
    (by unfold Dest.Fits startFilling; simpa using hbuf')
  have hstart : ∀ b : Bytes, (startFilling b capacity).dest.written = [] := fun b => rfl
  constructor
  · intro h
    refine ⟨?_, ?_, h.failed⟩
    · have := h.bytes
      rwa [hread.dest.written, hpre.dest.written, hstart, hstart] at this
    · have := h.eos
      rwa [hread.seen_eos, hpre.seen_eos] at this
  · rintro ⟨hbytes, heos, hfailed⟩
    refine ⟨?_, ?_, ?_, hfailed⟩
    · rw [hread.dest.written, hpre.dest.written]
      exact congrArg ([] ++ ·) hbytes
    · rw [hread.bytes_read, hpre.bytes_read]
      exact congrArg (0 + List.length ·) hbytes
    · rw [hread.seen_eos, hpre.seen_eos]
      exact congrArg (false || ·) heos

/-- From the first failed read on, the one walk does nothing more, the other
goes on. -/
theorem walk_failed {pre : List Bucket} (hpre : Clean pre) (rv : Int) (h : rv ≠ 0) (left : Bytes) (known : Option Nat) (post : List Bucket)
    (n : Nat) : walk false (pre ++ .broken rv h left known :: post) n = ⟨(walk false pre n).copies, false⟩ := by
  rw [walk_split false hpre, walk, if_neg (by simp), Walk.after, List.append_nil]

/-- The failed reads are harmless when the walk that goes on copies nothing more
and meets no EOS. -/
theorem goesOn_harmless_iff {pre : List Bucket} (rv : Int) (h : rv ≠ 0) (left : Bytes) (known : Option Nat) (post : List Bucket) (n : Nat) :
    (walk true (.broken rv h left known :: post) (n - (dataOf pre).length)).eos = false ∧
        (walk true (.broken rv h left known :: post) (n - (dataOf pre).length)).bytes = [] ↔
      .eos ∉ post ∧ (n ≤ (dataOf pre).length ∨ (Bucket.broken rv h left known :: post).flatMap Bucket.payload = []) := by
  have hmem : .eos ∈ Bucket.broken rv h left known :: post ↔ .eos ∈ post := by simp
  by_cases heos : .eos ∈ post
  · have := walk_eos _ (n - (dataOf pre).length) (hmem.mpr heos)
    rw [this]
    simp [heos]
  · obtain ⟨hfalse, hbytes⟩ := walk_noEos _ (n - (dataOf pre).length) (mt hmem.mp heos)
    rw [hfalse, hbytes, List.take_eq_nil_iff, Nat.sub_eq_zero_iff_le]
    simp [heos]

/-- For every brigade, every capacity and every two buffers: the loops agree
exactly when the failed reads are harmless. -/
theorem loops_agree_iff (bb : List Bucket) (buf buf' : Bytes) (capacity : Nat) (hbuf : capacity ≤ buf.length)
    (hbuf' : capacity ≤ buf'.length) : LoopsAgree bb buf buf' capacity ↔ FailuresHarmless bb capacity := by
  rw [loopsAgree_iff_walks bb hbuf hbuf']
  constructor
  · rintro ⟨hbytes, heos, -⟩ pre rv h left known post rfl hpre
    rw [walk_failed hpre, walk_split true hpre] at hbytes heos
    rw [Walk.after_bytes] at hbytes
    exact (goesOn_harmless_iff rv h left known post capacity).mp ⟨heos.symm, List.self_eq_append_right.mp hbytes⟩
  · intro hharmless
    rcases failure_cases bb with hnone | ⟨pre, rv, h, left, known, post, rfl, hpre⟩
    · -- no read fails before EOS: the walks are one
      obtain ⟨heq, hread⟩ := walk_clean bb capacity hnone
      refine ⟨by rw [heq], by rw [heq], fun goesOn c hc hf => ?_⟩
      cases goesOn
      · exact absurd hf (hread c hc)
      · rw [heq] at hc
        exact absurd hf (hread c hc)
    · obtain ⟨heos, hbytes⟩ := (goesOn_harmless_iff rv h left known post capacity).mpr (hharmless pre rv h left known post rfl hpre)
      have hread := walk_readable hpre capacity
      rw [walk_failed hpre, walk_split true hpre]
      refine ⟨?_, heos.symm, fun goesOn c hc hf => ?_⟩
      · rw [Walk.after_bytes, hbytes, List.append_nil]
        rfl
      · cases goesOn
        · rw [walk_failed hpre] at hc
          exact absurd hf (hread c hc)
        · rw [walk_split true hpre] at hc
          rcases List.mem_append.mp hc with hc | hc
          · exact absurd hf (hread c hc)
          · exact List.flatMap_eq_nil_iff.mp hbytes c hc

/-- A read that fails behind EOS. -/
theorem loops_agree_eos :
    LoopsAgree [.data [1, 2], .flush, .eos, .broken 5 (by decide) [9] none] (List.replicate 4 0) (List.replicate 8 7) 4 := by
  refine (loops_agree_iff [.data [1, 2], .flush, .eos, .broken 5 (by decide) [9] none] (List.replicate 4 0)
    (List.replicate 8 7) 4 (by decide) (by decide)).mpr fun pre rv h left known post he hpre => ?_
  rcases pre with _ | ⟨b₁, _ | ⟨b₂, _ | ⟨b₃, pre⟩⟩⟩
  · cases he
  · cases he
  · cases he
  · have hthird : Bucket.eos = b₃ := (List.cons.inj (List.cons.inj (List.cons.inj he).2).2).1
    exact absurd (by simp [← hthird]) hpre.1

/-- After a failed read the preread copies what `data` and `len` hold, and counts
it. -/
theorem failed_read_copied : ¬ ∀ (bb : List Bucket) (buf buf' : Bytes) (capacity : Nat), capacity ≤ buf.length →
    capacity ≤ buf'.length → LoopsAgree bb buf buf' capacity := by
  intro h
  have hcount := (h [.data [1], .broken 5 (by decide) [9, 9] none] (List.replicate 4 0) (List.replicate 4 0) 4 (by decide)
    (by decide)).counted
  revert hcount
  decide

end ModAspNet.L5.Body
