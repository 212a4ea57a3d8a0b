import ModAspNet.L5Worker.Headers
import ModAspNet.L5Worker.NativeText

/-!
# Copies of header texts

`SendKnownResponseHeader` and `SendUnknownResponseHeader` encode a text into an
array and copy it to the pool with `apr_pmemdup(rr->pool, &avalue[0], len + 1)`:
one byte more than the array has, to make room for the NUL written next. The
array of an empty text has no first element at all.

* `known_run`, `unknown_run`: the responses are those of `Headers`, and each
  copy made reads one byte beyond its array.
* `copies_never_faithful`: no call is faithful; what is stored is exact unless
  the value is empty or the name has a NUL.
-/
namespace ModAspNet.L5.HeaderCopies

open ModAspNet.L1.CStr ModAspNet.L1.Managed
open ModAspNet.L5.Headers
open ModAspNet.L5.NativeText (Memory zero_mem_utf8 freshHeap)

/-! ## The functions -/

/-- `count` bytes read from the first element of an array on. -/
structure Read where
  avalue : Bytes
  count : Nat
  deriving DecidableEq

/-- Code that copies arrays: the reads made, and what it returns or raises. -/
abbrev CopyM := ExceptT Exn (StateM (List Read))

/-- `pin_ptr<unsigned char> p = &avalue[0]` -/
def pin (avalue : Bytes) : CopyM Unit := if avalue = [] then throw .IndexOutOfRangeException else pure ()

/-- `apr_pmemdup(rr->pool, p, n)` of an array with `m` behind it. -/
def aprPmemdup (avalue : Bytes) (m : Memory) (n : Nat) : CopyM Bytes := do
  modify (· ++ [(⟨avalue, n⟩ : Read)])
  return (avalue ++ m.bytes).take n

/-- `GetBytes`, the copy and the NUL at its end. -/
def poolCopy (s : WString) (m : Memory) : CopyM CString := do
  let avalue := utf8 s
  let len := avalue.length
  pin avalue
  let poolval ← aprPmemdup avalue m (len + 1)
  return cstr (poolval.set len 0)

/-- mirrors Apache.Web/WorkerRequest.h:557-588 -/
def sendKnownResponseHeader (rr : Response) (index : Int) (value : WString) (m : Memory) : CopyM Response :=
  if 0 ≤ index ∧ index < ResponseHeaderMaximum then do
    let poolval ← poolCopy value m
    if index = HeaderContentType then
      return { rr with content_type := some poolval }
    else
      let name := cstr ((responseHeadersNameC[index.toNat]?).getD [])
      return { rr with headers_out := aprTableSetn rr.headers_out name poolval }
  else return rr

/-- mirrors Apache.Web/WorkerRequest.h:590-611 -/
def sendUnknownResponseHeader (rr : Response) (name value : WString) (m m' : Memory) : CopyM Response := do
  let poolkey ← poolCopy name m
  let poolval ← poolCopy value m'
  return { rr with headers_out := aprTableSetn rr.headers_out poolkey poolval }

/-- What a call returns or raises. -/
def result {α : Type} (c : CopyM α) : Except Exn α := (c.run.run []).1

/-- The reads a call makes. -/
def reads {α : Type} (c : CopyM α) : List Read := (c.run.run []).2

/-! ## One copy -/

section bind

variable {α β : Type} {c : CopyM α} {rs rs' : List Read}

theorem run_bind_ok {a : α} (h : c.run.run rs = (.ok a, rs')) (f : α → CopyM β) :
    (c >>= f).run.run rs = (f a).run.run rs' := by
  rw [ExceptT.run_bind, StateT.run_bind, h]; rfl

theorem run_bind_error {e : Exn} (h : c.run.run rs = (.error e, rs')) (f : α → CopyM β) :
    (c >>= f).run.run rs = (.error e, rs') := by
  rw [ExceptT.run_bind, StateT.run_bind, h]; rfl

end bind

theorem behind_ne_nil (m : Memory) : m.bytes ≠ [] := List.ne_nil_of_mem m.terminated

/-- The byte from behind the array is the one overwritten. -/
theorem copied (avalue : Bytes) (m : Memory) :
    ((avalue ++ m.bytes).take (avalue.length + 1)).set avalue.length 0 = avalue ++ [0] := by
  obtain ⟨b, rest, hb⟩ := List.exists_cons_of_ne_nil (behind_ne_nil m)
  rw [hb, List.take_length_add_append]
  simp

/-- The copy of a text reads one byte more than its array has. -/
def overread (s : WString) : Read := ⟨utf8 s, (utf8 s).length + 1⟩

theorem poolCopy_nil (m : Memory) (rs : List Read) :
    (poolCopy [] m).run.run rs = (.error .IndexOutOfRangeException, rs) := rfl

theorem poolCopy_of_ne_nil {s : WString} (h : s ≠ []) (m : Memory) (rs : List Read) :
    (poolCopy s m).run.run rs = (.ok (cstr (utf8 s ++ [0])), rs ++ [overread s]) := by
  have hne : utf8 s ≠ [] := mt utf8_eq_nil.mp h
  rw [← copied (utf8 s) m]
  simp only [poolCopy, pin, if_neg hne, aprPmemdup]
  rfl

/-! ## The calls -/

variable (rr : Response) (index : Int) (name value : WString) (m m' : Memory)

/-- A known header in range: the response of `Headers`, and one overread
unless the value is empty. -/
theorem known_run (h0 : 0 ≤ index) (h1 : index < ResponseHeaderMaximum) :
    (sendKnownResponseHeader rr index value m).run.run [] =
      (Headers.sendKnownResponseHeader rr index value, if value = [] then [] else [overread value]) := by
  unfold sendKnownResponseHeader Headers.sendKnownResponseHeader
  rw [if_pos ⟨h0, h1⟩, if_pos ⟨h0, h1⟩]
  by_cases hv : value = []
  · subst hv
    exact run_bind_error (poolCopy_nil m []) _
  · rw [run_bind_ok (poolCopy_of_ne_nil hv m []), poolString_of_ne_nil hv, if_neg hv]
    by_cases hi : index = HeaderContentType
    · rw [if_pos hi]
      simp only [bind, Except.bind, if_pos hi]
      rfl
    · rw [if_neg hi]
      simp only [bind, Except.bind, if_neg hi]
      rfl

/-- A header by name: the overread of the value follows that of the name. -/
theorem unknown_run (hname : name ≠ []) :
    (sendUnknownResponseHeader rr name value m m').run.run [] =
      (Headers.sendUnknownResponseHeader rr name value,
        overread name :: if value = [] then [] else [overread value]) := by
  unfold sendUnknownResponseHeader Headers.sendUnknownResponseHeader
  rw [run_bind_ok (poolCopy_of_ne_nil hname m []), poolString_of_ne_nil hname]
  by_cases hv : value = []
  · subst hv
    exact run_bind_error (poolCopy_nil m' _) _
  · rw [run_bind_ok (poolCopy_of_ne_nil hv m' _), poolString_of_ne_nil hv, if_neg hv]
    rfl

/-! ## Faithful calls -/

/-- The exact value, as the content type or under the name of the index. -/
def KnownStored (rr' : Response) : Prop :=
  ∃ key val : CString, key.val = (responseHeadersNameC[index.toNat]?).getD [] ∧ val.val = utf8 value ∧
    rr' = if index = HeaderContentType then { rr with content_type := some val }
      else { rr with headers_out := aprTableSetn rr.headers_out key val }

/-- The exact value under the exact name. -/
def UnknownStored (rr' : Response) : Prop :=
  ∃ key val : CString, key.val = utf8 name ∧ val.val = utf8 value ∧
    rr' = { rr with headers_out := aprTableSetn rr.headers_out key val }

/-- The call returns, and stores what it should. -/
def Returns (call : CopyM Response) (Stored : Response → Prop) : Prop :=
  ∃ rr', result call = .ok rr' ∧ Stored rr'

/-- It also reads inside the arrays only. -/
structure Faithful (call : CopyM Response) (Stored : Response → Prop) : Prop where
  returns : Returns call Stored
  inside : ∀ r ∈ reads call, r.count ≤ r.avalue.length

variable {rr index name value m m'}

theorem overread_outside (s : WString) : ¬ (overread s).count ≤ (overread s).avalue.length :=
  Nat.not_succ_le_self _

/-- No name of a known header has a NUL. -/
theorem knownName_nonul : ∀ k : Nat, 0 ∉ (responseHeadersNameC[k]?).getD [] := by
  have hall : (responseHeadersNameC.all fun b => !b.contains 0) = true := by decide
  intro k hk
  cases hb : responseHeadersNameC[k]? with
  | none => rw [hb] at hk; cases hk
  | some b =>
    have := List.all_eq_true.mp hall b (List.mem_of_getElem? hb)
    rw [hb] at hk
    exact absurd hk (by simpa using this)

theorem known_returns_iff (h0 : 0 ≤ index) (h1 : index < ResponseHeaderMaximum) (hnul : 0 ∉ value) :
    Returns (sendKnownResponseHeader rr index value m) (KnownStored rr index value) ↔ value ≠ [] := by
  unfold Returns result
  rw [known_run rr index value m h0 h1, Headers.sendKnownResponseHeader, if_pos ⟨h0, h1⟩]
  constructor
  · rintro ⟨rr', hrr', -⟩ rfl
    cases hrr'
  · intro hv
    rw [poolString_of_ne_nil hv]
    refine ⟨_, ?_, _, _, cstr_of_nonul (knownName_nonul _), cstr_append_nul (mt (zero_mem_utf8 value).mp hnul), rfl⟩
    by_cases hi : index = HeaderContentType
    · simp [hi, bind, Except.bind, pure, Except.pure]
    · simp [hi, bind, Except.bind, pure, Except.pure]

theorem unknown_returns_iff (hname : name ≠ []) (hnul : 0 ∉ value) :
    Returns (sendUnknownResponseHeader rr name value m m') (UnknownStored rr name value) ↔
      value ≠ [] ∧ 0 ∉ name := by
  unfold Returns result
  rw [unknown_run rr name value m m' hname, Headers.sendUnknownResponseHeader, poolString_of_ne_nil hname]
  constructor
  · rintro ⟨rr', hrr', key, val, hkey, hval, rfl⟩
    have hv : value ≠ [] := by rintro rfl; cases hrr'
    exact ⟨hv, mt (zero_mem_utf8 name).mpr (hkey ▸ key.nonul)⟩
  · rintro ⟨hv, hno⟩
    rw [poolString_of_ne_nil hv]
    exact ⟨_, rfl, _, _, cstr_append_nul (mt (zero_mem_utf8 name).mp hno),
      cstr_append_nul (mt (zero_mem_utf8 value).mp hnul), rfl⟩

/-- For every response, every index in range, every name and every value
without NUL, whatever is behind the arrays: neither call is faithful. Each
stores what it should, the reads apart, unless the value is empty or the name
has a NUL. -/
theorem copies_never_faithful (rr : Response) (index : Int) (h0 : 0 ≤ index) (h1 : index < ResponseHeaderMaximum)
    (name value : WString) (hname : name ≠ []) (hnul : 0 ∉ value) (m m' : Memory) :
    (¬ Faithful (sendKnownResponseHeader rr index value m) (KnownStored rr index value) ∧
      (Returns (sendKnownResponseHeader rr index value m) (KnownStored rr index value) ↔ value ≠ [])) ∧
    ¬ Faithful (sendUnknownResponseHeader rr name value m m') (UnknownStored rr name value) ∧
      (Returns (sendUnknownResponseHeader rr name value m m') (UnknownStored rr name value) ↔
        value ≠ [] ∧ 0 ∉ name) := by
  refine ⟨⟨?known, known_returns_iff h0 h1 hnul⟩, ?unknown, unknown_returns_iff hname hnul⟩
  case known =>
    intro h
    have hv := (known_returns_iff h0 h1 hnul).mp h.returns
    refine overread_outside value (h.inside _ ?_)
    rw [reads, known_run rr index value m h0 h1, if_neg hv]
    exact List.mem_singleton_self _
  case unknown =>
    intro h
    refine overread_outside name (h.inside _ ?_)
    rw [reads, unknown_run rr name value m m' hname]
    exact List.mem_cons_self

/-- `Location: /` -/
theorem location_never_faithful :
    ¬ Faithful (sendKnownResponseHeader ⟨none, []⟩ 23 (wlit "/") freshHeap) (KnownStored ⟨none, []⟩ 23 (wlit "/")) :=
  (copies_never_faithful ⟨none, []⟩ 23 (by decide) (by decide) (wlit "X") (wlit "/") (by decide) (by decide) freshHeap
    freshHeap).1.1

/-- An empty `ETag` raises. -/
theorem header_copies_fail : ¬ ∀ (rr : Response) (index : Int) (name value : WString) (m m' : Memory),
    0 ≤ index → index < ResponseHeaderMaximum → name ≠ [] → 0 ∉ value →
      Faithful (sendKnownResponseHeader rr index value m) (KnownStored rr index value) ∧
      Faithful (sendUnknownResponseHeader rr name value m m') (UnknownStored rr name value) := by
  intro h
  obtain ⟨rr', hrr', -⟩ := (h ⟨none, []⟩ 22 (wlit "X") [] freshHeap freshHeap
    (by decide) (by decide) (by decide) (by decide)).1.returns
  cases hrr'

end ModAspNet.L5.HeaderCopies
