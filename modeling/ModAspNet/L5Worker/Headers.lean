import ModAspNet.Core.Assoc
import ModAspNet.L1Text.Managed

/-!
# Response headers

ASP.NET hands response headers over one at a time, by index
(`SendKnownResponseHeader`) or by name (`SendUnknownResponseHeader`). Both
store the value with `apr_table_setn`, which overwrites every entry of that
name (`apache2_4_include/apr_tables.h:294-305`), so only the last value sent
under a name is left.

* `shown_run_of_silent`: a send changes the values of its own name only.
* `headers_kept_iff`: nothing is lost exactly when no name is sent twice, and
  names and values pass through `char *` whole (`Clean`).
-/
namespace ModAspNet.L5.Headers

open ModAspNet.L1.CStr ModAspNet.L1.Managed
open ModAspNet.Core

/-- `apr_table_t`: names are compared without case. -/
abbrev AprTable := List (CString × CString)

def keyView (k : CString) : Bytes := fold k.val

/-- apache2_4_include/apr_tables.h:294-305 -/
def aprTableSetn (t : AprTable) (key val : CString) : AprTable := Assoc.put keyView t key val

/-- `response_headers_m`; mirrors Apache.Web/http_header_arrays.h:24-57 -/
def responseHeadersNameC : List Bytes :=
  [lit "Cache-Control", lit "Connection", lit "Date", lit "Keep-Alive", lit "Pragma", lit "Trailer",
    lit "Transfer-Encoding", lit "Upgrade", lit "Via", lit "Warning", lit "Allow",
    lit "Content-Length", lit "Content-Type", lit "Content-Encoding", lit "Content-Language",
    lit "Content-Location", lit "Content-MD5", lit "Content-Range", lit "Expires",
    lit "Last-Modified", lit "Accept-Ranges", lit "Age", lit "ETag", lit "Location",
    lit "Proxy-Authenticate", lit "Retry-After", lit "Server", lit "Set-Cookie", lit "Vary",
    lit "WWW-Authenticate"]

def ResponseHeaderMaximum : Int := 30
def HeaderContentType : Int := 12

/-- The fields of `request_rec` the two functions write. -/
structure Response where
  content_type : Option CString
  headers_out : AprTable

/-- `&a[0]` of an array without elements raises. -/
inductive Exn where
  | IndexOutOfRangeException

/-- The bytes of a managed string, copied to the pool and closed with NUL. -/
def poolString (s : WString) : Except Exn CString :=
  match utf8 s with
  | [] => .error .IndexOutOfRangeException
  | a :: as => .ok (cstr (a :: as ++ [0]))

/-- mirrors Apache.Web/WorkerRequest.h:557-588 -/
def sendKnownResponseHeader (rr : Response) (index : Int) (value : WString) : Except Exn Response :=
  if 0 ≤ index ∧ index < ResponseHeaderMaximum then do
    let poolval ← poolString value
    if index = HeaderContentType then
      return { rr with content_type := some poolval }
    else
      let name := cstr ((responseHeadersNameC[index.toNat]?).getD [])
      return { rr with headers_out := aprTableSetn rr.headers_out name poolval }
  else return rr

/-- mirrors Apache.Web/WorkerRequest.h:590-611 -/
def sendUnknownResponseHeader (rr : Response) (name value : WString) : Except Exn Response := do
  let poolkey ← poolString name
  let poolval ← poolString value
  return { rr with headers_out := aprTableSetn rr.headers_out poolkey poolval }

/-! ## Sequences of sends -/

/-- A call with its index in range and a non-empty value. -/
inductive Send where
  | known (index : Int) (value : WString) (h0 : 0 ≤ index) (h1 : index < ResponseHeaderMaximum)
      (nonempty : value ≠ [])
  | unknown (name value : WString) (nonempty : value ≠ [])

/-- The bytes of the name a value is sent under. -/
def Send.name : Send → Bytes
  | .known index _ _ _ _ => (responseHeadersNameC[index.toNat]?).getD []
  | .unknown name _ _ => utf8 name

/-- The bytes of the value sent. -/
def Send.value : Send → Bytes
  | .known _ value _ _ _ => utf8 value
  | .unknown _ value _ => utf8 value

def Send.call (rr : Response) : Send → Except Exn Response
  | .known index value _ _ _ => sendKnownResponseHeader rr index value
  | .unknown name value _ => sendUnknownResponseHeader rr name value

/-- One call; a call that raises leaves the response as it was. -/
def Send.step (rr : Response) (s : Send) : Response :=
  match s.call rr with
  | .ok rr' => rr'
  | .error _ => rr

def run (rr : Response) (sends : List Send) : Response := sends.foldl Send.step rr

def contentType : Bytes := fold (lit "Content-Type")

/-- The values sent under a name, in order. -/
def sentUnder (n : Bytes) (sends : List Send) : List Bytes :=
  (sends.filter fun s => decide (fold s.name = n)).map Send.value

/-- The values `headers_out` shows under a name, in order. -/
def shown (rr : Response) (n : Bytes) : List Bytes :=
  (Assoc.vals keyView rr.headers_out n).map CString.val

/-- Every value sent under a name other than `Content-Type` is there, in the
order sent. -/
def Kept (rr : Response) (sends : List Send) : Prop :=
  ∀ n, n ≠ contentType → (sentUnder n sends).Sublist (shown (run rr sends) n)

/-- The name and the value go through `char *` whole. -/
def Send.Whole (s : Send) : Prop := s.name ≠ [] ∧ 0 ∉ s.name ∧ 0 ∉ s.value

/-- Each name other than `Content-Type` is sent at most once, and whole. -/
structure Clean (sends : List Send) : Prop where
  whole : ∀ s ∈ sends, fold s.name ≠ contentType → s.Whole
  once : ∀ n, n ≠ contentType → (sentUnder n sends).length ≤ 1

/-! ## One send -/

theorem poolString_of_ne_nil {s : WString} (h : s ≠ []) : poolString s = .ok (cstr (utf8 s ++ [0])) := by
  unfold poolString
  split
  · rename_i he; exact absurd (utf8_eq_nil.mp he) h
  · rename_i a as he; rw [he]

theorem poolString_nil : poolString [] = .error .IndexOutOfRangeException := rfl

/-- What a send writes to `headers_out`: the key and the value. -/
def Send.written : Send → Option (CString × CString)
  | .known index value _ _ _ =>
    if index = HeaderContentType then none
    else some (cstr ((responseHeadersNameC[index.toNat]?).getD []), cstr (utf8 value ++ [0]))
  | .unknown name value _ =>
    if name = [] then none else some (cstr (utf8 name ++ [0]), cstr (utf8 value ++ [0]))

theorem step_headers_out (rr : Response) (s : Send) : (s.step rr).headers_out =
    match s.written with
    | none => rr.headers_out
    | some (key, val) => aprTableSetn rr.headers_out key val := by
  cases s with
  | known index value h0 h1 hv =>
    simp only [Send.step, Send.call, sendKnownResponseHeader, h0, h1, and_self, if_true,
      poolString_of_ne_nil hv, Send.written]
    by_cases hi : index = HeaderContentType <;> simp [hi, bind, Except.bind, pure, Except.pure]
  | unknown name value hv =>
    simp only [Send.step, Send.call, sendUnknownResponseHeader, Send.written]
    by_cases hn : name = []
    · simp [hn, poolString_nil, bind, Except.bind]
    · simp [hn, poolString_of_ne_nil hn, poolString_of_ne_nil hv, bind, Except.bind, pure, Except.pure]

theorem cstr_append_nul {b : Bytes} (h : 0 ∉ b) : (cstr (b ++ [0])).val = b := cstr_val_of_nonul h []

/-- A whole send under a name other than `Content-Type` writes the value under
that name. -/
theorem written_of_whole {s : Send} (hn : fold s.name ≠ contentType) (hw : s.Whole) :
    ∃ key val, s.written = some (key, val) ∧ keyView key = fold s.name ∧ val.val = s.value := by
  obtain ⟨hne, h0, hv0⟩ := hw
  cases s with
  | known index value _ _ _ =>
    have hi : index ≠ HeaderContentType := by rintro rfl; exact hn rfl
    exact ⟨_, _, if_neg hi, congrArg fold (cstr_of_nonul h0), cstr_append_nul hv0⟩
  | unknown name value _ =>
    have hname : name ≠ [] := fun h => hne (utf8_eq_nil.mpr h)
    exact ⟨_, _, if_neg hname, congrArg fold (cstr_append_nul h0), cstr_append_nul hv0⟩

/-- The key written is the name, where the name has no NUL. -/
theorem written_key {s : Send} (h : 0 ∉ s.name) {key val : CString} (hw : s.written = some (key, val)) :
    key.val = s.name := by
  cases s with
  | known index value _ _ _ =>
    simp only [Send.written] at hw
    split at hw <;> cases hw
    exact cstr_of_nonul h
  | unknown name value _ =>
    simp only [Send.written] at hw
    split at hw <;> cases hw
    exact cstr_append_nul h

/-- A send without a name writes nothing. -/
theorem name_ne_nil_of_written {s : Send} {kv : CString × CString} (hw : s.written = some kv) :
    s.name ≠ [] := by
  cases s with
  | known index value h0 h1 _ =>
    have hall : ∀ b ∈ responseHeadersNameC, b ≠ [] := by decide
    have hlt : index.toNat < responseHeadersNameC.length := by
      simp only [ResponseHeaderMaximum] at h1
      show index.toNat < 30
      omega
    simp only [Send.name, List.getElem?_eq_getElem hlt, Option.getD_some]
    exact hall _ (List.getElem_mem hlt)
  | unknown name value _ =>
    simp only [Send.written] at hw
    split at hw
    · cases hw
    · rename_i hname; exact fun h => hname (utf8_eq_nil.mp h)

/-- A send named `Content-Type` writes nothing under another name. -/
theorem written_of_contentType {s : Send} (hn : fold s.name = contentType) {key val : CString}
    (hw : s.written = some (key, val)) : keyView key = contentType := by
  have h0 : 0 ∉ s.name := by
    intro h
    have : (0 : UInt8) ∈ contentType := by
      rw [← hn]; exact List.mem_map.mpr ⟨0, h, by decide⟩
    exact absurd this (by decide)
  rw [keyView, written_key h0 hw, hn]

/-- The send leaves the values of the name alone. -/
def Send.Silent (n : Bytes) (s : Send) : Prop := ∀ key val, s.written = some (key, val) → keyView key ≠ n

theorem shown_step_of_silent (rr : Response) {s : Send} {n : Bytes} (h : s.Silent n) :
    shown (s.step rr) n = shown rr n := by
  unfold shown
  rw [step_headers_out]
  cases hw : s.written with
  | none => rfl
  | some kv => exact congrArg (List.map CString.val) (Assoc.vals_put_of_ne _ _ _ (h kv.1 kv.2 hw))

theorem shown_step_of_written (rr : Response) {s : Send} {key val : CString}
    (h : s.written = some (key, val)) : shown (s.step rr) (keyView key) = [val.val] := by
  unfold shown
  rw [step_headers_out, h]
  simp only [aprTableSetn, Assoc.vals_put_self, List.map_cons, List.map_nil]

/-- After a send a name has one value more only if it had none. -/
theorem shown_step_length_le (rr : Response) (s : Send) {n : Bytes} (h : (shown rr n).length ≤ 1) :
    (shown (s.step rr) n).length ≤ 1 := by
  by_cases hs : s.Silent n
  · rw [shown_step_of_silent rr hs]; exact h
  · unfold Send.Silent at hs
    push Not at hs
    obtain ⟨key, val, hw, rfl⟩ := hs
    rw [shown_step_of_written rr hw]; simp

/-! ## A sequence of sends -/

theorem run_cons (rr : Response) (s : Send) (sends : List Send) : run rr (s :: sends) = run (s.step rr) sends :=
  rfl

theorem run_append (rr : Response) (a b : List Send) : run rr (a ++ b) = run (run rr a) b := List.foldl_append

theorem shown_run_of_silent : ∀ (sends : List Send) (rr : Response) {n : Bytes},
    (∀ s ∈ sends, s.Silent n) → shown (run rr sends) n = shown rr n
  | [], _, _, _ => rfl
  | s :: sends, rr, n, h => by
    rw [run_cons, shown_run_of_silent sends _ fun s' hs' => h s' (List.mem_cons_of_mem _ hs'),
      shown_step_of_silent rr (h s (by simp))]

theorem shown_run_length_le : ∀ (sends : List Send) (rr : Response) {n : Bytes},
    (shown rr n).length ≤ 1 → (shown (run rr sends) n).length ≤ 1
  | [], _, _, h => h
  | s :: sends, rr, _, h => shown_run_length_le sends (s.step rr) (shown_step_length_le rr s h)

/-- Once a send wrote under the name, the name never has more than one value. -/
theorem shown_run_le_one {sends : List Send} (rr : Response) {s : Send} (hs : s ∈ sends) {key val : CString}
    (hw : s.written = some (key, val)) : (shown (run rr sends) (keyView key)).length ≤ 1 := by
  obtain ⟨a, b, rfl⟩ := List.append_of_mem hs
  rw [run_append, run_cons]
  refine shown_run_length_le b _ ?_
  rw [shown_step_of_written _ hw]; simp

/-- What `headers_out` shows has no NUL: it is read as C strings. -/
theorem shown_nonul (rr : Response) (n : Bytes) : ∀ v ∈ shown rr n, 0 ∉ v := by
  intro v hv
  obtain ⟨c, -, rfl⟩ := List.mem_map.mp hv
  exact c.nonul

/-- A name with a value in `headers_out` is the folded name of a C string. -/
theorem name_of_shown {rr : Response} {n : Bytes} (h : shown rr n ≠ []) : ∃ k : CString, n = fold k.val := by
  cases hs : (rr.headers_out.filter fun e => decide (keyView e.1 = n)) with
  | nil => exact absurd (by simp [shown, Assoc.vals, hs]) h
  | cons e t =>
    have : e ∈ rr.headers_out.filter fun e => decide (keyView e.1 = n) := by rw [hs]; simp
    exact ⟨e.1, by simpa [keyView, eq_comm] using (List.mem_filter.mp this).2⟩

theorem exists_of_sentUnder {n : Bytes} {sends : List Send} {v : Bytes} {vs : List Bytes}
    (h : sentUnder n sends = v :: vs) : ∃ s ∈ sends, fold s.name = n ∧ s.value = v := by
  have hv : v ∈ sentUnder n sends := by rw [h]; simp
  obtain ⟨s, hs, rfl⟩ := List.mem_map.mp hv
  obtain ⟨hmem, hname⟩ := List.mem_filter.mp hs
  exact ⟨s, hmem, of_decide_eq_true hname, rfl⟩

theorem mem_sentUnder {n : Bytes} {sends : List Send} {s : Send} (hs : s ∈ sends) (hn : fold s.name = n) :
    s.value ∈ sentUnder n sends :=
  List.mem_map.mpr ⟨s, List.mem_filter.mpr ⟨hs, by simpa using hn⟩, rfl⟩

/-- No header is set under an empty name. -/
def Response.Named (rr : Response) : Prop := ∀ e ∈ rr.headers_out, e.1.val ≠ []

theorem Response.Named.shown_nil {rr : Response} (h : rr.Named) : shown rr [] = [] := by
  unfold shown Assoc.vals
  rw [List.filter_eq_nil_iff.mpr]
  · rfl
  · intro e he
    simp [keyView, fold, h e he]

theorem zero_mem_fold {b : Bytes} : 0 ∈ fold b ↔ 0 ∈ b := by
  unfold fold
  rw [List.mem_map]
  constructor
  · rintro ⟨c, hc, h0⟩; rw [tolower_eq_zero] at h0; exact h0 ▸ hc
  · intro h; exact ⟨0, h, by decide⟩

theorem nonul_of_kept {rr : Response} {sends : List Send} (h : Kept rr sends) :
    ∀ s ∈ sends, fold s.name ≠ contentType → 0 ∉ s.name ∧ 0 ∉ s.value := by
  intro s hs hn
  have hmem : s.value ∈ shown (run rr sends) (fold s.name) := (h _ hn).subset (mem_sentUnder hs rfl)
  obtain ⟨k, hk⟩ := name_of_shown (List.ne_nil_of_mem hmem)
  refine ⟨?_, shown_nonul _ _ _ hmem⟩
  rw [← zero_mem_fold, hk, zero_mem_fold]
  exact k.nonul

/-- A send with a name free of NUL does not write under the empty name. -/
theorem silent_nil {s : Send} (h : 0 ∉ s.name) : s.Silent [] := by
  intro key val hw he
  rw [keyView, written_key h hw, fold, List.map_eq_nil_iff] at he
  exact name_ne_nil_of_written hw he

/-- Where nothing is lost, every send outside `Content-Type` is whole. -/
theorem whole_of_kept {rr : Response} (hrr : rr.Named) {sends : List Send} (h : Kept rr sends) :
    ∀ s ∈ sends, fold s.name ≠ contentType → s.Whole := by
  intro s hs hn
  refine ⟨?_, nonul_of_kept h s hs hn⟩
  intro hempty
  have hmem : s.value ∈ shown (run rr sends) [] := by
    have := (h _ hn).subset (mem_sentUnder hs rfl)
    rwa [hempty] at this
  have hsilent : ∀ s' ∈ sends, s'.Silent [] := by
    intro s' hs'
    by_cases hc : fold s'.name = contentType
    · intro key val hw he
      have := written_of_contentType hc hw
      rw [he] at this; exact absurd this (by decide)
    · exact silent_nil (nonul_of_kept h s' hs' hc).1
  rw [shown_run_of_silent sends rr hsilent, hrr.shown_nil] at hmem
  cases hmem

theorem once_of_kept {rr : Response} (hrr : rr.Named) {sends : List Send} (h : Kept rr sends) :
    ∀ n, n ≠ contentType → (sentUnder n sends).length ≤ 1 := by
  intro n hn
  have hsub := h n hn
  cases hsent : sentUnder n sends with
  | nil => simp
  | cons v vs =>
    obtain ⟨s, hs, rfl, -⟩ := exists_of_sentUnder hsent
    obtain ⟨key, val, hw, hkey, -⟩ := written_of_whole hn (whole_of_kept hrr h s hs hn)
    have hle := hsub.length_le
    have hone := shown_run_le_one rr hs hw
    rw [hkey] at hone
    rw [← hsent]; omega

/-- Where each name is sent once and whole, what follows a send leaves its
name alone. -/
theorem silent_after {a b : List Send} {s : Send} (h : Clean (a ++ s :: b)) (hn : fold s.name ≠ contentType) :
    ∀ s' ∈ b, s'.Silent (fold s.name) := by
  intro s' hs' key val hw he
  by_cases hc : fold s'.name = contentType
  · exact hn (he.symm.trans (written_of_contentType hc hw))
  · have hwhole := h.whole s' (by simp [hs']) hc
    have hname : fold s'.name = fold s.name := by
      rw [← he, keyView, written_key hwhole.2.1 hw]
    have hone := h.once (fold s.name) hn
    have hpos := List.length_pos_of_mem (mem_sentUnder hs' hname)
    simp only [sentUnder, List.filter_append, List.filter_cons, decide_true, if_true, List.map_append,
      List.map_cons, List.length_append, List.length_cons] at hone hpos
    omega

theorem kept_of_clean {rr : Response} {sends : List Send} (h : Clean sends) : Kept rr sends := by
  intro n hn
  cases hsent : sentUnder n sends with
  | nil => exact List.nil_sublist _
  | cons v vs =>
    have hone := h.once n hn
    have hvs : vs = [] := by
      rw [hsent, List.length_cons] at hone
      exact List.length_eq_zero_iff.mp (by omega)
    subst hvs
    obtain ⟨s, hs, rfl, rfl⟩ := exists_of_sentUnder hsent
    obtain ⟨key, val, hw, hkey, hval⟩ := written_of_whole hn (h.whole s hs hn)
    obtain ⟨a, b, rfl⟩ := List.append_of_mem hs
    rw [run_append, run_cons, shown_run_of_silent b _ (silent_after h hn), ← hkey,
      shown_step_of_written _ hw, hval]

/-- For every request and every sequence of calls, no value is lost exactly
when each name other than `Content-Type` is sent at most once, and whole. -/
theorem headers_kept_iff (rr : {rr : Response // rr.Named}) (sends : List Send) :
    Kept rr.1 sends ↔ Clean sends :=
  ⟨fun h => ⟨whole_of_kept rr.2 h, once_of_kept rr.2 h⟩, kept_of_clean⟩

/-! ## Two cookies -/

def cookie (v : String) (h : wlit v ≠ []) : Send := .known 27 (wlit v) (by decide) (by decide) h

/-- Of two cookies the first is lost. -/
theorem first_cookie_lost : ¬ ∀ (rr : {rr : Response // rr.Named}) (sends : List Send), Kept rr.1 sends := by
  intro h
  have := (h ⟨⟨none, []⟩, by intro e he; cases he⟩ [cookie "a=1" (by decide), cookie "b=2" (by decide)]
    (fold (lit "Set-Cookie")) (by decide)).subset (mem_sentUnder (s := cookie "a=1" (by decide)) (by simp) rfl)
  revert this
  decide

end ModAspNet.L5.Headers
