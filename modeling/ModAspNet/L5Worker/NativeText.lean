import ModAspNet.L5Worker.Completion

/-!
# Text handed to httpd

`SendStatus`, `Host::LogRequestError` and `HostFactory::LogServerError` encode a
string with `GetBytes` and hand the address of the first byte to a function that
reads a C string. The array has no NUL at its end (`SendKnownResponseHeader` and
its siblings copy into a buffer that has one), so what is read goes on in the
managed memory behind it.

* `zero_mem_utf8`: an encoded text has a NUL byte when it has a NUL character.
* `read_exact_iff`: what is read is the text exactly when it has no NUL and one
  stands behind it.
* `texts_exact_iff`: the status line and the logs are a function of the text
  alone exactly when the memory behind begins with NUL.
-/
namespace ModAspNet.L5.NativeText

open ModAspNet.L1.CStr ModAspNet.L1.Managed
open ModAspNet.L5.Completion

/-! ## The functions -/

/-- What follows an array in the managed memory: a NUL comes at some point. -/
structure Memory where
  bytes : Bytes
  terminated : 0 ∈ bytes

/-- The C string at the first byte of an array. -/
def readFrom (avalue : Bytes) (m : Memory) : Bytes := (cstr (avalue ++ m.bytes)).val

/-- apache2_4_include/http_log.h:81-88 -/
def APLOG_NOERRNO : Nat := 16

/-- A call of `ap_log_rerror` or `ap_log_error`. -/
structure LogCall where
  module_index : Int
  level : Nat
  status : Int
  text : Bytes
  deriving DecidableEq

/-- The call with the text of `msg`; `&avalue[0]` raises for the empty one. -/
def logText (module_index : Int) (msg : WString) (loglevel : Nat) (rv : Int) (m : Memory) : Except Exn LogCall :=
  if utf8 msg = [] then .error .IndexOutOfRangeException
  else .ok ⟨module_index, loglevel ||| (if rv ≠ 0 then 0 else APLOG_NOERRNO), rv,
    lit "mod_aspdotnet: " ++ readFrom (utf8 msg) m⟩

/-- `ap_log_rerror`; mirrors Apache.Web/Host.h:99-108 -/
def logRequestErrorCall (thisModuleIndex : Int) := logText thisModuleIndex

/-- `ap_log_error`; mirrors Apache.Web/HostFactory.h:48-55 -/
def logServerErrorCall (this_module_index : Int) := logText this_module_index

/-! ## NUL bytes -/

theorem octet_eq_zero {marker bits : Nat} (h : marker + bits < 256) : octet marker bits = 0 ↔ marker + bits = 0 := by
  unfold octet
  rw [← UInt8.toNat_inj, UInt8.toNat_ofNat']
  simp only [UInt8.toNat_zero]
  omega

theorem zero_mem_utf8Unit (u : UInt16) : 0 ∈ utf8Unit u ↔ u = 0 := by
  have hu : u.toNat < 65536 := u.toNat_lt
  have hzero : u = 0 ↔ u.toNat = 0 := by rw [← UInt16.toNat_inj]; rfl
  unfold utf8Unit
  dsimp only
  split
  · rename_i hs
    have hne : u ≠ 0 := by rintro rfl; revert hs; decide
    simp [hne]
  · split
    · rw [List.mem_singleton, eq_comm, octet_eq_zero (by omega), hzero]
      omega
    · split
      · simp only [List.mem_cons, List.not_mem_nil, or_false, eq_comm (a := (0 : UInt8))]
        rw [octet_eq_zero (by omega), octet_eq_zero (by omega), hzero]
        omega
      · simp only [List.mem_cons, List.not_mem_nil, or_false, eq_comm (a := (0 : UInt8))]
        rw [octet_eq_zero (by omega), octet_eq_zero (by omega), octet_eq_zero (by omega), hzero]
        omega

theorem zero_notMem_utf8Pair (hi lo : UInt16) (hh : isHigh hi = true) (hl : isLow lo = true) : 0 ∉ utf8Pair hi lo := by
  unfold isHigh isLow at *
  have h1 := of_decide_eq_true hh
  have h2 := of_decide_eq_true hl
  unfold utf8Pair
  simp only [List.mem_cons, List.not_mem_nil, or_false, eq_comm (a := (0 : UInt8))]
  rw [octet_eq_zero (by omega), octet_eq_zero (by omega), octet_eq_zero (by omega), octet_eq_zero (by omega)]
  omega

theorem zero_mem_utf8 : ∀ s : WString, 0 ∈ utf8 s ↔ 0 ∈ s
  | [] => by simp [utf8]
  | [u] => by
    rw [utf8, zero_mem_utf8Unit, List.mem_singleton, eq_comm]
  | u :: v :: rest => by
    unfold utf8
    split
    · rename_i hpair
      rw [Bool.and_eq_true] at hpair
      have hu : (0 : UInt16) ≠ u := fun e => absurd (e ▸ hpair.1 : isHigh 0 = true) (by decide)
      have hv : (0 : UInt16) ≠ v := fun e => absurd (e ▸ hpair.2 : isLow 0 = true) (by decide)
      rw [List.mem_append, zero_mem_utf8 rest]
      simp [zero_notMem_utf8Pair u v hpair.1 hpair.2, hu, hv]
    · rw [List.mem_append, zero_mem_utf8Unit, zero_mem_utf8 (v :: rest), eq_comm, ← List.mem_cons]

/-! ## What is read -/

theorem read_exact_iff (avalue : Bytes) (m : Memory) :
    readFrom avalue m = avalue ↔ 0 ∉ avalue ∧ m.bytes.head? = some 0 := by
  unfold readFrom
  constructor
  · intro h
    have hno : 0 ∉ avalue := h ▸ (cstr (avalue ++ m.bytes)).nonul
    refine ⟨hno, ?_⟩
    simp only [cstr] at h
    rw [List.takeWhile_append_of_pos (fun x hx => by simpa using fun e : x = 0 => hno (e ▸ hx))] at h
    -- nothing behind the array is read
    have hnone := List.append_right_eq_self.mp h
    have hterm := m.terminated
    cases hm : m.bytes with
    | nil => rw [hm] at hterm; cases hterm
    | cons b rest =>
      rw [hm] at hnone
      by_cases hb : b = 0
      · rw [hb]; rfl
      · rw [List.takeWhile_cons_of_pos (by simpa using hb)] at hnone
        cases hnone
  · rintro ⟨hno, hhead⟩
    obtain ⟨rest, hrest⟩ := List.head?_eq_some_iff.mp hhead
    rw [hrest]
    exact cstr_val_of_nonul hno rest

/-! ## The theorem -/

/-- The decimal code, one space and the encoded description. -/
def StatusExact (w : Reply) (statusCode : Int) (desc : WString) (m : Memory) : Prop :=
  (sendStatus w statusCode (some desc) m.bytes).2.status_line =
    .text (lit (toString statusCode) ++ lit " " ++ utf8 desc)

/-- The text of the log call is the encoded message. -/
def LogExact (call : Except Exn LogCall) (msg : WString) : Prop :=
  ∃ c, call = .ok c ∧ c.text = lit "mod_aspdotnet: " ++ utf8 msg

/-- The three functions called with the same arguments, `m` or `m'` behind the
arrays: the same status line, and exact texts. -/
structure TextAlone (w : Reply) (statusCode : Int) (desc msg : WString) (index : Int) (loglevel : Nat) (rv : Int)
    (m m' : Memory) : Prop where
  same : (sendStatus w statusCode (some desc) m.bytes).2.status_line =
    (sendStatus w statusCode (some desc) m'.bytes).2.status_line
  status : StatusExact w statusCode desc m
  requestError : LogExact (logRequestErrorCall index msg loglevel rv m) msg ∧
    LogExact (logRequestErrorCall index msg loglevel rv m') msg
  serverError : LogExact (logServerErrorCall index msg loglevel rv m) msg ∧
    LogExact (logServerErrorCall index msg loglevel rv m') msg

theorem statusExact_iff (w : Reply) (statusCode : Int) {desc : WString} (hne : desc ≠ []) (m : Memory) :
    StatusExact w statusCode desc m ↔ 0 ∉ desc ∧ m.bytes.head? = some 0 := by
  have hline : (sendStatus w statusCode (some desc) m.bytes).2.status_line =
      .text (lit (toString statusCode) ++ lit " " ++ readFrom (utf8 desc) m) := by
    unfold sendStatus
    split
    · rename_i h; cases h
    · rename_i h; exact absurd (Option.some.inj h) hne
    · rename_i h; cases h; rfl
  unfold StatusExact
  rw [hline, StatusLine.text.injEq, List.append_right_inj, read_exact_iff, zero_mem_utf8]

theorem logExact_iff (index : Int) {msg : WString} (hne : msg ≠ []) (loglevel : Nat) (rv : Int) (m : Memory) :
    LogExact (logText index msg loglevel rv m) msg ↔ 0 ∉ msg ∧ m.bytes.head? = some 0 := by
  unfold LogExact logText
  rw [if_neg (mt utf8_eq_nil.mp hne), ← zero_mem_utf8 msg, ← read_exact_iff]
  constructor
  · rintro ⟨c, hc, htext⟩
    rw [← Except.ok.inj hc] at htext
    exact List.append_cancel_left htext
  · intro h
    exact ⟨_, rfl, congrArg (lit "mod_aspdotnet: " ++ ·) h⟩

/-- For every status code, every description without NUL, every message and
every two contents of the memory behind the arrays: the texts are those of the
strings alone exactly when both contents begin with NUL, and the message has
none. -/
theorem texts_exact_iff (w : Reply) (statusCode : Int) (desc msg : WString) (hdesc : desc ≠ []) (hnul : 0 ∉ desc)
    (hmsg : msg ≠ []) (index : Int) (loglevel : Nat) (rv : Int) (m m' : Memory) :
    TextAlone w statusCode desc msg index loglevel rv m m' ↔
      m.bytes.head? = some 0 ∧ m'.bytes.head? = some 0 ∧ 0 ∉ msg := by
  constructor
  · intro h
    obtain ⟨hno, hm⟩ := (logExact_iff index hmsg loglevel rv m).mp h.requestError.1
    exact ⟨hm, ((logExact_iff index hmsg loglevel rv m').mp h.requestError.2).2, hno⟩
  · rintro ⟨hm, hm', hno⟩
    have hstatus := (statusExact_iff w statusCode hdesc m).mpr ⟨hnul, hm⟩
    have hlog := (logExact_iff index hmsg loglevel rv m).mpr ⟨hno, hm⟩
    have hlog' := (logExact_iff index hmsg loglevel rv m').mpr ⟨hno, hm'⟩
    exact ⟨hstatus.trans ((statusExact_iff w statusCode hdesc m').mpr ⟨hnul, hm'⟩).symm, hstatus, ⟨hlog, hlog'⟩,
      ⟨hlog, hlog'⟩⟩

/-- A fresh part of the heap, and one that was used before. -/
def freshHeap : Memory := ⟨[0, 0, 0, 0], by decide⟩

def usedHeap : Memory := ⟨lit "secret" ++ [0], by decide⟩

theorem texts_exact_fresh :
    TextAlone (newReply 200 (.standard 200) ⟨none, []⟩) 404 (wlit "Gone") (wlit "failed") 5 3 0 freshHeap freshHeap :=
  (texts_exact_iff _ 404 (wlit "Gone") (wlit "failed") (by decide) (by decide) (by decide) 5 3 0 freshHeap
    freshHeap).mpr ⟨rfl, rfl, by decide⟩

/-- `404 Gone` and `404 Gonesecret`. -/
theorem status_line_leaks : ¬ ∀ (w : Reply) (statusCode : Int) (desc msg : WString) (index : Int) (loglevel : Nat)
    (rv : Int) (m m' : Memory), desc ≠ [] → 0 ∉ desc → msg ≠ [] →
      TextAlone w statusCode desc msg index loglevel rv m m' := by
  intro h
  have hsame := (h (newReply 200 (.standard 200) ⟨none, []⟩) 404 (wlit "Gone") (wlit "failed") 5 3 0 freshHeap usedHeap
    (by decide) (by decide) (by decide)).same
  revert hsame
  decide +kernel

end ModAspNet.L5.NativeText
