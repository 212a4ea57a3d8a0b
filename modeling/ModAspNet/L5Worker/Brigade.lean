import Mathlib.Algebra.Group.Int.Defs
import ModAspNet.L1Text.Managed

/-!
# Reading the request body

The body of a request comes from httpd's input filters in bucket brigades.
`WorkerRequest::Handler` reads one brigade ahead of ASP.NET into
`preread_body`; each `ReadEntityBody` of ASP.NET then fills its buffer through
`InternalReadEntityBody`. Each of the two has its own loop over a brigade.

The filters are a parameter (`InputFilters`). The loop over brigades has a
fuel argument; `Option.none` is running out of it. Counters of what was copied
are `Nat`: `bytes_read` is an `__int64`, a request does not fill it. What was
not copied is counted in an `int`, which wraps.

* `Advance`: what writing some bytes at the cursor does to a buffer.
* `readBrigade_reads`, `prereadBrigade_reads`: on a brigade that fits, both
  loops write its data, in order, and nothing else.
-/
namespace ModAspNet.L5.Body

open ModAspNet.L1.CStr ModAspNet.L1.Managed

/-! ## Buckets and filters -/

/-- A bucket. A `broken` one is a data bucket whose `apr_bucket_read` fails
with status `rv`, leaving `left` in `data` and `len`; `known` is its length,
where it has one before it is read. -/
inductive Bucket where
  | eos
  | flush
  | data (bytes : Bytes)
  | broken (rv : Int) (h : rv ≠ 0) (left : Bytes) (known : Option Nat)
  deriving DecidableEq

/-- `ap_get_brigade(.., AP_MODE_READBYTES, APR_BLOCK_READ, n)`: a status or a
brigade, from a state of the filters. -/
structure InputFilters where
  State : Type
  getBrigade : State → Nat → Except Int (List Bucket) × State

/-! ## Buffers -/

def memcpy (buf : Bytes) (off : Nat) (data : Bytes) : Bytes :=
  buf.take off ++ data ++ buf.drop (off + data.length)

/-- `curptr` as an offset into its buffer, and the bytes still to fill. -/
structure Dest where
  buf : Bytes
  off : Nat
  size : Nat

/-- `memcpy(curptr, data, len); curptr += len; size -= len` -/
def Dest.put (d : Dest) (data : Bytes) : Dest :=
  ⟨memcpy d.buf d.off data, d.off + data.length, d.size - data.length⟩

/-- What lies before the cursor. -/
def Dest.written (d : Dest) : Bytes := d.buf.take d.off

/-- The bytes still to fill are in the buffer. -/
def Dest.Fits (d : Dest) : Prop := d.off + d.size ≤ d.buf.length

/-- `d'` is `d` with `data` written at the cursor. -/
structure Advance (d d' : Dest) (data : Bytes) : Prop where
  written : d'.written = d.written ++ data
  off : d'.off = d.off + data.length
  size : d'.size + data.length = d.size
  length : d'.buf.length = d.buf.length

theorem Advance.refl (d : Dest) : Advance d d [] := by
  constructor <;> simp

theorem Advance.trans {d d' d'' : Dest} {a b : Bytes} (h : Advance d d' a) (h' : Advance d' d'' b) :
    Advance d d'' (a ++ b) := by
  obtain ⟨w, o, s, l⟩ := h
  obtain ⟨w', o', s', l'⟩ := h'
  refine ⟨by rw [w', w, List.append_assoc], ?_, ?_, l'.trans l⟩ <;>
    rw [List.length_append] <;> omega

theorem Advance.fits {d d' : Dest} {a : Bytes} (h : Advance d d' a) (hf : d.Fits) : d'.Fits := by
  unfold Dest.Fits at *
  have := h.off; have := h.size; have := h.length
  omega

theorem advance_put {d : Dest} {data : Bytes} (hf : d.Fits) (hl : data.length ≤ d.size) :
    Advance d (d.put data) data := by
  unfold Dest.Fits at hf
  have hoff : (d.buf.take d.off).length = d.off := by rw [List.length_take]; omega
  refine ⟨?_, rfl, by simp only [Dest.put]; omega, ?_⟩
  · have : (d.buf.take d.off ++ data).length = d.off + data.length := by rw [List.length_append, hoff]
    simp only [Dest.written, Dest.put, memcpy]
    rw [List.take_append_of_le_length (by omega), List.take_of_length_le (by omega)]
  · simp only [Dest.put, memcpy, List.length_append, List.length_drop, hoff]
    omega

/-! ## `InternalReadEntityBody` -/

/-- What the two loops share: the buffer, the byte count and the EOS flag. -/
structure Filling where
  dest : Dest
  bytes_read : Nat
  seen_eos : Bool

structure ReadState extends Filling where
  overflow : Int32

/-- A bucket whose data was read. mirrors Apache.Web/WorkerRequest.cpp:395-404 -/
def ReadState.copy (s : ReadState) (data : Bytes) : ReadState :=
  let exceeds := decide (data.length > s.dest.size)
  let overflow := if exceeds then s.overflow + Int32.ofNat (data.length - s.dest.size) else s.overflow
  let len := if exceeds then s.dest.size else data.length
  if s.dest.size ≠ 0 then
    { s with dest := s.dest.put (data.take len), bytes_read := s.bytes_read + len, overflow }
  else { s with overflow }

/-- The inner loop: a status, 0 when the brigade was used up or left at its
EOS bucket. mirrors Apache.Web/WorkerRequest.cpp:378-408 -/
def readBrigade : List Bucket → ReadState → Int × ReadState
  | [], s => (0, s)
  | .eos :: _, s => (0, { s with seen_eos := true })
  | .flush :: bb, s => readBrigade bb s
  | .broken rv _ _ _ :: _, s => (rv, s)
  | .data d :: bb, s => readBrigade bb (s.copy d)

def HUGE_STRING_LEN : Nat := 8192

/-- mirrors Apache.Web/WorkerRequest.cpp:351-414 -/
def internalReadEntityBody (F : InputFilters) :
    Nat → F.State → ReadState → Option (Int × ReadState × F.State)
  | 0, _, _ => none
  | fuel + 1, st, s =>
    let size_one := if HUGE_STRING_LEN ≤ s.dest.size then HUGE_STRING_LEN else s.dest.size
    match F.getBrigade st size_one with
    | (.error rv, st') => some (rv, s, st')
    | (.ok bb, st') =>
      match readBrigade bb s with
      | (rv, s') =>
        if rv ≠ 0 then some (rv, s', st')
        else if !s'.seen_eos ∧ s'.dest.size > 0 then internalReadEntityBody F fuel st' s'
        else some (0, s', st')

/-! ## `ReadEntityBody` -/

/-- The fields of `WorkerRequest` the reading of the body works on, and the
texts given to `LogRequestError`. -/
structure Worker where
  preread_body : Bytes
  seen_eos : Bool
  bytes_read : Nat
  log : List WString

/-- The result, the buffer after the call, and the worker.
mirrors Apache.Web/WorkerRequest.cpp:418-452 -/
def readEntityBody (F : InputFilters) (fuel : Nat) (st : F.State) (w : Worker) (buffer : Bytes) (size : Int) :
    Option (Nat × Bytes × Worker × F.State) :=
  if buffer.length < 1 then some (0, buffer, w, st)
  else
    -- `apr_size_t` is 32 bits wide
    let dest : Dest := ⟨buffer, 0, (size % 2 ^ 32).toNat⟩
    (internalReadEntityBody F fuel st ⟨⟨dest, 0, w.seen_eos⟩, 0⟩).map fun (rv, s, st') =>
      (s.bytes_read, s.dest.buf,
        { w with
          seen_eos := s.seen_eos
          bytes_read := w.bytes_read + s.bytes_read
          log := w.log ++
            (if rv ≠ 0 then [wlit "ReadEntityBody: brigade read failure reading the request body"] else []) ++
            (if s.overflow ≠ 0 then
              [wlit "ReadEntityBody: brigade read overflow reading the request body"] else []) },
        st')

/-! ## The preread of `Handler` -/

/-- `apr_brigade_length(bb, 1, &sz)`: of the buckets only those of unknown length
are read, and the sum is "up to the end, or up to a bucket read error"
(apache2_4_include/apr_buckets.h:732-742). -/
def aprBrigadeLength : List Bucket → Nat
  | [] => 0
  | .data d :: bb => d.length + aprBrigadeLength bb
  | .broken _ _ _ (some known) :: bb => known + aprBrigadeLength bb
  | .broken _ _ _ none :: _ => 0
  | .eos :: bb => aprBrigadeLength bb
  | .flush :: bb => aprBrigadeLength bb

/-- `size = (apr_size_t)sz`, which has 32 bits. -/
def prereadSize (bb : List Bucket) : Nat := aprBrigadeLength bb % 4294967296

structure PrereadState extends Filling where
  log : List WString

/-- mirrors Apache.Web/WorkerRequest.cpp:511-522 -/
def PrereadState.copy (s : PrereadState) (data : Bytes) : PrereadState :=
  let exceeds := decide (data.length > s.dest.size)
  let len := if exceeds then s.dest.size else data.length
  let log := if exceeds then
    s.log ++ [wlit "Handler: brigade read overflow prereading the request body"] else s.log
  if s.dest.size ≠ 0 then
    { s with dest := s.dest.put (data.take len), bytes_read := s.bytes_read + len, log }
  else { s with log }

/-- A bucket whose read failed is copied like any other: the failure is only
logged. mirrors Apache.Web/WorkerRequest.cpp:494-526 -/
def prereadBrigade : List Bucket → PrereadState → PrereadState
  | [], s => s
  | .eos :: _, s => { s with seen_eos := true }
  | .flush :: bb, s => prereadBrigade bb s
  | .broken _ _ left _ :: bb, s =>
    let s := { s with
      log := s.log ++ [wlit "Handler: brigade read failure prereading the request body"] }
    prereadBrigade bb (s.copy left)
  | .data d :: bb, s => prereadBrigade bb (s.copy d)

/-- `preread_body = gcnew array<unsigned char>(size)`, with the cursor at its start. -/
def Worker.startPreread (w : Worker) (size : Nat) : PrereadState :=
  ⟨⟨⟨List.replicate size 0, 0, size⟩, w.bytes_read, w.seen_eos⟩, w.log⟩

/-- The worker once the loop is through. -/
def PrereadState.worker (s : PrereadState) : Worker := ⟨s.dest.buf, s.seen_eos, s.bytes_read, s.log⟩

/-- The preread; `some 500` when `Handler` returns at its end.
mirrors Apache.Web/WorkerRequest.cpp:475-539 -/
def handlerPreread (F : InputFilters) (st : F.State) (w : Worker) : Option Int × Worker × F.State :=
  match F.getBrigade st 49152 with
  | (.error _, st') =>
    (some 500, { w with log := w.log ++ [wlit "Handler: failed to preread the request body"] }, st')
  | (.ok bb, st') =>
    let s := prereadBrigade bb (w.startPreread (prereadSize bb))
    (none, s.worker, st')

/-! ## Brigades that read without failure -/

/-- The data of a brigade, in order. -/
def dataOf : List Bucket → Bytes
  | [] => []
  | .data d :: bb => d ++ dataOf bb
  | _ :: bb => dataOf bb

def hasEos (bb : List Bucket) : Bool := decide (.eos ∈ bb)

/-- No read fails, and no data follows the EOS bucket. -/
structure WellFormed (bb : List Bucket) : Prop where
  readable : ∀ rv h left known, Bucket.broken rv h left known ∉ bb
  eos_last : ∀ pre post, bb = pre ++ .eos :: post → dataOf post = []

theorem WellFormed.tail {b : Bucket} {bb : List Bucket} (h : WellFormed (b :: bb)) : WellFormed bb :=
  ⟨fun rv hrv left known hm => h.readable rv hrv left known (List.mem_cons_of_mem _ hm),
    fun pre post he => h.eos_last (b :: pre) post (by rw [he]; rfl)⟩

theorem aprBrigadeLength_eq : ∀ {bb : List Bucket}, WellFormed bb → aprBrigadeLength bb = (dataOf bb).length
  | [], _ => rfl
  | .eos :: bb, h => by
    show aprBrigadeLength bb = (dataOf bb).length
    exact aprBrigadeLength_eq h.tail
  | .flush :: bb, h => by
    show aprBrigadeLength bb = (dataOf bb).length
    exact aprBrigadeLength_eq h.tail
  | .broken rv hrv left known :: _, h => absurd List.mem_cons_self (h.readable rv hrv left known)
  | .data d :: bb, h => by
    simp only [aprBrigadeLength, dataOf, List.length_append, aprBrigadeLength_eq h.tail]

theorem hasEos_cons_of_ne {b : Bucket} (h : b ≠ .eos) (bb : List Bucket) : hasEos (b :: bb) = hasEos bb := by
  simp [hasEos, h.symm]

/-- `f'` is `f` after reading `data`, and an EOS bucket if `eos`. -/
structure Reads (f f' : Filling) (data : Bytes) (eos : Bool) : Prop where
  dest : Advance f.dest f'.dest data
  bytes_read : f'.bytes_read = f.bytes_read + data.length
  seen_eos : f'.seen_eos = (f.seen_eos || eos)

theorem Reads.refl (f : Filling) : Reads f f [] false := ⟨.refl _, by simp, by simp⟩

theorem Reads.trans {f f' f'' : Filling} {a b : Bytes} {e e' : Bool} (h : Reads f f' a e)
    (h' : Reads f' f'' b e') : Reads f f'' (a ++ b) (e || e') := by
  refine ⟨h.dest.trans h'.dest, ?_, ?_⟩
  · rw [h'.bytes_read, h.bytes_read, List.length_append]; omega
  · rw [h'.seen_eos, h.seen_eos, Bool.or_assoc]

theorem reads_put {f : Filling} {d : Bytes} (hf : f.dest.Fits) (hl : d.length ≤ f.dest.size) :
    Reads f { f with dest := f.dest.put d, bytes_read := f.bytes_read + d.length } d false :=
  ⟨advance_put hf hl, rfl, by simp⟩

theorem reads_eos (f : Filling) {bb : List Bucket} (h : WellFormed (.eos :: bb)) :
    Reads f { f with seen_eos := true } (dataOf (.eos :: bb)) (hasEos (.eos :: bb)) := by
  rw [show dataOf (.eos :: bb) = [] from h.eos_last [] bb rfl, show hasEos (.eos :: bb) = true by simp [hasEos]]
  exact ⟨.refl _, by simp, by simp⟩

/-- A bucket that fits the buffer, in either loop: when nothing is left to
fill, it is empty. -/
theorem reads_copy {s : ReadState} {d : Bytes} (hf : s.dest.Fits) (hl : d.length ≤ s.dest.size) :
    Reads s.toFilling (s.copy d).toFilling d false ∧ (s.copy d).overflow = s.overflow := by
  have hover : decide (d.length > s.dest.size) = false := by simp; omega
  simp only [ReadState.copy, hover, Bool.false_eq_true, if_false, List.take_length]
  split
  · exact ⟨reads_put hf hl, rfl⟩
  · have : d = [] := List.length_eq_zero_iff.mp (by omega)
    subst this
    exact ⟨.refl _, rfl⟩

theorem prereads_copy {s : PrereadState} {d : Bytes} (hf : s.dest.Fits) (hl : d.length ≤ s.dest.size) :
    Reads s.toFilling (s.copy d).toFilling d false ∧ (s.copy d).log = s.log := by
  have hover : decide (d.length > s.dest.size) = false := by simp; omega
  simp only [PrereadState.copy, hover, Bool.false_eq_true, if_false, List.take_length]
  split
  · exact ⟨reads_put hf hl, rfl⟩
  · have : d = [] := List.length_eq_zero_iff.mp (by omega)
    subst this
    exact ⟨.refl _, rfl⟩

theorem readBrigade_reads : ∀ (bb : List Bucket) (s : ReadState), WellFormed bb → s.dest.Fits →
    (dataOf bb).length ≤ s.dest.size →
    ∃ s', readBrigade bb s = (0, s') ∧ s'.overflow = s.overflow ∧
      Reads s.toFilling s'.toFilling (dataOf bb) (hasEos bb)
  | [], s, _, _, _ => ⟨s, rfl, rfl, .refl _⟩
  | .eos :: _, s, hw, _, _ => ⟨_, rfl, rfl, reads_eos _ hw⟩
  | .flush :: bb, s, hw, hf, hl => by
    rw [hasEos_cons_of_ne (by simp)]
    exact readBrigade_reads bb s hw.tail hf hl
  | .broken rv hrv left known :: _, _, hw, _, _ => absurd List.mem_cons_self (hw.readable rv hrv left known)
  | .data d :: bb, s, hw, hf, hl => by
    simp only [dataOf, List.length_append] at hl
    obtain ⟨hc, ho⟩ := reads_copy (s := s) (d := d) hf (by omega)
    obtain ⟨s', he, ho', hr⟩ := readBrigade_reads bb (s.copy d) hw.tail (hc.dest.fits hf)
      (by have := hc.dest.size; omega)
    rw [hasEos_cons_of_ne (by simp)]
    exact ⟨s', he, ho'.trans ho, by simpa only [Bool.false_or, dataOf] using hc.trans hr⟩

theorem prereadBrigade_reads : ∀ (bb : List Bucket) (s : PrereadState), WellFormed bb → s.dest.Fits →
    (dataOf bb).length ≤ s.dest.size → (prereadBrigade bb s).log = s.log ∧
      Reads s.toFilling (prereadBrigade bb s).toFilling (dataOf bb) (hasEos bb)
  | [], s, _, _, _ => ⟨rfl, .refl _⟩
  | .eos :: _, s, hw, _, _ => ⟨rfl, reads_eos _ hw⟩
  | .flush :: bb, s, hw, hf, hl => by
    rw [hasEos_cons_of_ne (by simp)]
    exact prereadBrigade_reads bb s hw.tail hf hl
  | .broken rv hrv left known :: _, _, hw, _, _ => absurd List.mem_cons_self (hw.readable rv hrv left known)
  | .data d :: bb, s, hw, hf, hl => by
    simp only [dataOf, List.length_append] at hl
    obtain ⟨hc, hlog⟩ := prereads_copy (s := s) (d := d) hf (by omega)
    obtain ⟨hlog', hr⟩ := prereadBrigade_reads bb (s.copy d) hw.tail (hc.dest.fits hf)
      (by have := hc.dest.size; omega)
    rw [hasEos_cons_of_ne (by simp)]
    exact ⟨hlog'.trans hlog, by simpa only [Bool.false_or, dataOf, prereadBrigade] using hc.trans hr⟩

end ModAspNet.L5.Body
