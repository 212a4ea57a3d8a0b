import ModAspNet.L5Worker.Headers
import Mathlib.Data.List.Indexes
import Mathlib.Logic.Function.Basic

/-!
# Request headers

The `WorkerRequest` constructor sorts the headers of the request: a known one
is stored under its index, all others go to three lists that run in parallel,
for the name as sent, the name in lower case and the value. ASP.NET asks for a
header by index or by name.

* `headerOf`: what a table holds under a name; the last entry counts.
* `classify_sorted`, `classifyAll_sorted`: the constructor's loop keeps the
  array and the lists in step with the entries read so far (`Sorted`).
* `headers_classified`: with names pairwise different, both views agree with
  the table.
-/
namespace ModAspNet.L5.RequestHeaders

open ModAspNet.L1.CStr ModAspNet.L1.Managed
open ModAspNet.L5.Headers (AprTable)

/-! ## The known names -/

/-- `common_headers_index_m`; mirrors Apache.Web/http_header_arrays.h:82-102 -/
def commonHeadersIndex : List WString :=
  [wlit "cache-control", wlit "connection", wlit "date", wlit "keep-alive", wlit "pragma", wlit "trailer",
    wlit "transfer-encoding", wlit "upgrade", wlit "via", wlit "warning", wlit "allow",
    wlit "content-length", wlit "content-type", wlit "content-encoding", wlit "content-language",
    wlit "content-location", wlit "content-md5", wlit "content-range", wlit "expires", wlit "last-modified"]

/-- `request_headers_index_m`; mirrors Apache.Web/http_header_arrays.h:117-138 -/
def requestHeadersIndexS : List WString := commonHeadersIndex ++
  [wlit "accept", wlit "accept-charset", wlit "accept-encoding", wlit "accept-language",
    wlit "authorization", wlit "cookie", wlit "expect", wlit "from", wlit "host", wlit "if-match",
    wlit "if-modified-since", wlit "if-none-match", wlit "if-range", wlit "if-unmodified-since",
    wlit "max-forwards", wlit "proxy-authorization", wlit "referer", wlit "range", wlit "te",
    wlit "user-agent"]

/-- `request_headers_m`; mirrors Apache.Web/http_header_arrays.h:24-44,59-80 -/
def requestHeadersName : List Bytes :=
  [lit "Cache-Control", lit "Connection", lit "Date", lit "Keep-Alive", lit "Pragma", lit "Trailer",
    lit "Transfer-Encoding", lit "Upgrade", lit "Via", lit "Warning", lit "Allow",
    lit "Content-Length", lit "Content-Type", lit "Content-Encoding", lit "Content-Language",
    lit "Content-Location", lit "Content-MD5", lit "Content-Range", lit "Expires", lit "Last-Modified",
    lit "Accept", lit "Accept-Charset", lit "Accept-Encoding", lit "Accept-Language",
    lit "Authorization", lit "Cookie", lit "Expect", lit "From", lit "Host", lit "If-Match",
    lit "If-Modified-Since", lit "If-None-Match", lit "If-Range", lit "If-Unmodified-Since",
    lit "Max-Forwards", lit "Proxy-Authorization", lit "Referer", lit "Range", lit "TE",
    lit "User-Agent"]

def RequestHeaderMaximum : Int := 40

/-! ## The constructor -/

inductive Exn where
  | IndexOutOfRangeException
  | ArgumentOutOfRangeException
  deriving DecidableEq

/-- `Array::IndexOf`, `ArrayList::IndexOf` -/
def indexOf (a : List WString) (s : WString) : Int :=
  match a.idxOf? s with
  | some i => i
  | none => -1

/-- `a[i] = v` of an array. -/
def arraySet {α : Type} (a : List α) (i : Int) (v : α) : Except Exn (List α) :=
  if 0 ≤ i ∧ i < a.length then .ok (a.set i.toNat v) else .error .IndexOutOfRangeException

/-- `a[i]` of an array. -/
def arrayGet {α : Type} (a : List α) (i : Int) : Except Exn α :=
  match a[i.toNat]? with
  | some v => if 0 ≤ i then .ok v else .error .IndexOutOfRangeException
  | none => .error .IndexOutOfRangeException

/-- `list[i]` of an `ArrayList`. -/
def listGet {α : Type} (a : List α) (i : Int) : Except Exn α :=
  match a[i.toNat]? with
  | some v => if 0 ≤ i then .ok v else .error .ArgumentOutOfRangeException
  | none => .error .ArgumentOutOfRangeException

/-- The fields of `WorkerRequest` that hold the request's headers. -/
structure HeaderFields where
  request_headers_value : List (Option WString)
  unk_req_header_name : List WString
  unk_req_header_index : List WString
  unk_req_header_value : List WString
  unk_req_hdr_arr : List (WString × WString)

/-- mirrors Apache.Web/WorkerRequest.cpp:38-41 -/
def newHeaders : HeaderFields := ⟨List.replicate RequestHeaderMaximum.toNat none, [], [], [], []⟩

/-- One turn of the loop; mirrors Apache.Web/WorkerRequest.cpp:79-91 -/
def classify (c : Culture) (ansi : CodePage) (w : HeaderFields) (pair : CString × CString) :
    Except Exn HeaderFields := do
  let key := ansi.decode pair.1.val
  let val := ansi.decode pair.2.val
  let key_index := c.lower key
  let ent := indexOf requestHeadersIndexS key_index
  if ent ≥ 0 then
    let values ← arraySet w.request_headers_value ent (some val)
    return { w with request_headers_value := values }
  else
    return { w with
      unk_req_header_name := w.unk_req_header_name ++ [key]
      unk_req_header_index := w.unk_req_header_index ++ [key_index]
      unk_req_header_value := w.unk_req_header_value ++ [val] }

/-- mirrors Apache.Web/WorkerRequest.cpp:75-92 -/
def classifyAll (c : Culture) (ansi : CodePage) : HeaderFields → AprTable → Except Exn HeaderFields
  | w, [] => .ok w
  | w, pair :: arr => do
    let w' ← classify c ansi w pair
    classifyAll c ansi w' arr

/-- `unk_req_hdr_arr[i] = { name[i], value[i] }` for each value;
mirrors Apache.Web/WorkerRequest.cpp:94-102 -/
def unkReqHdrArr : List WString → List WString → Except Exn (List (WString × WString))
  | _, [] => .ok []
  | [], _ :: _ => .error .ArgumentOutOfRangeException
  | name :: names, value :: values => do
    let rest ← unkReqHdrArr names values
    return (name, value) :: rest

/-- What the constructor does with `rr->headers_in`. -/
def readHeaders (c : Culture) (ansi : CodePage) (headers_in : AprTable) : Except Exn HeaderFields := do
  let w ← classifyAll c ansi newHeaders headers_in
  let arr ← unkReqHdrArr w.unk_req_header_name w.unk_req_header_value
  return { w with unk_req_hdr_arr := arr }

/-! ## The queries -/

/-- mirrors Apache.Web/WorkerRequest.h:439-443 -/
def getKnownRequestHeaderIndex (c : Culture) (header : WString) : Int :=
  indexOf requestHeadersIndexS (c.lower header)

/-- mirrors Apache.Web/WorkerRequest.h:388-407 -/
def getKnownRequestHeader (w : HeaderFields) (index : Int) : Except Exn (Option WString) :=
  if 0 ≤ index ∧ index < RequestHeaderMaximum then arrayGet w.request_headers_value index else .ok none

/-- mirrors Apache.Web/WorkerRequest.h:409-427 -/
def getUnknownRequestHeader (c : Culture) (w : HeaderFields) (name : WString) : Except Exn (Option WString) := do
  let ent := indexOf w.unk_req_header_index (c.lower name)
  if ent ≥ 0 then
    let val ← listGet w.unk_req_header_value ent
    return some val
  else return none

/-- mirrors Apache.Web/WorkerRequest.h:429-437 -/
def getUnknownRequestHeaders (w : HeaderFields) : List (WString × WString) := w.unk_req_hdr_arr

/-! ## Positions -/

theorem indexOf_eq (a : List WString) (s : WString) : indexOf a s = if s ∈ a then (a.idxOf s : Int) else -1 := by
  unfold indexOf
  by_cases hs : s ∈ a
  · have hfind : a.idxOf? s = some (a.idxOf s) := List.findIdx?_eq_some_of_exists ⟨s, hs, by simp⟩
    rw [hfind, if_pos hs]
  · rw [List.idxOf?_eq_none_iff.mpr hs, if_neg hs]

theorem indexOf_of_notMem {a : List WString} {s : WString} (h : s ∉ a) : indexOf a s = -1 := by
  rw [indexOf_eq, if_neg h]

section
variable {ε : Type} (key val : ε → WString)

/-- What a table holds under a name: the value written last. -/
def headerOf (entries : List ε) : WString → Option WString :=
  entries.foldl (fun g e => Function.update g (key e) (some (val e))) fun _ => none

theorem headerOf_append (entries : List ε) (e : ε) :
    headerOf key val (entries ++ [e]) = Function.update (headerOf key val entries) (key e) (some (val e)) := by
  simp [headerOf]

theorem headerOf_of_notMem {entries : List ε} {b : WString} (h : ∀ e ∈ entries, key e ≠ b) :
    headerOf key val entries b = none := by
  induction entries using List.reverseRecOn with
  | nil => rfl
  | append_singleton done e ih =>
    rw [headerOf_append, Function.update_of_ne (h e (by simp)).symm]
    exact ih fun x hx => h x (by simp [hx])

/-- With names pairwise different, an entry is what its name holds. -/
theorem headerOf_of_mem {entries : List ε} (hd : (entries.map key).Nodup) {e : ε} (he : e ∈ entries) :
    headerOf key val entries (key e) = some (val e) := by
  induction entries using List.reverseRecOn with
  | nil => cases he
  | append_singleton done x ih =>
    rw [List.map_append, List.nodup_append] at hd
    obtain ⟨hdone, -, hne⟩ := hd
    rw [headerOf_append]
    rcases List.mem_append.mp he with he | he
    · have : key e ≠ key x := hne _ (List.mem_map_of_mem he) _ (by simp)
      rw [Function.update_of_ne this]
      exact ih hdone he
    · rw [List.mem_singleton.mp he, Function.update_self]

/-- Lists in parallel: the position of a name is that of its value. -/
theorem listGet_parallel {l : List ε} (hd : (l.map key).Nodup) {e : ε} (he : e ∈ l) :
    0 ≤ indexOf (l.map key) (key e) ∧ listGet (l.map val) (indexOf (l.map key) (key e)) = .ok (val e) := by
  have hmem : key e ∈ l.map key := List.mem_map_of_mem he
  have hat := List.idxOf_lt_length_of_mem hmem
  have hlt : (l.map key).idxOf (key e) < l.length := by rwa [List.length_map] at hat
  rw [indexOf_eq, if_pos hmem]
  refine ⟨Int.natCast_nonneg _, ?_⟩
  have hkey : (l.map key)[(l.map key).idxOf (key e)] = key e := List.getElem_idxOf hat
  rw [List.getElem_map] at hkey
  have hsame := List.inj_on_of_nodup_map hd (List.getElem_mem hlt) he hkey
  unfold listGet
  rw [Int.toNat_natCast, List.getElem?_map, List.getElem?_eq_getElem hlt, hsame]
  simp

end

/-! ## The loop -/

section
variable (c : Culture) (ansi : CodePage)

def nameOf (e : CString × CString) : WString := ansi.decode e.1.val
def keyOf (e : CString × CString) : WString := c.lower (nameOf ansi e)
def valueOf (e : CString × CString) : WString := ansi.decode e.2.val

/-- The entries of a table whose names are not known. -/
def unknownOf (entries : AprTable) : AprTable := entries.filter fun e => keyOf c ansi e ∉ requestHeadersIndexS

/-- The array and the lists hold the entries read so far. -/
structure Sorted (done : AprTable) (w : HeaderFields) : Prop where
  known : w.request_headers_value = requestHeadersIndexS.map (headerOf (keyOf c ansi) (valueOf ansi) done)
  name : w.unk_req_header_name = (unknownOf c ansi done).map (nameOf ansi)
  index : w.unk_req_header_index = (unknownOf c ansi done).map (keyOf c ansi)
  value : w.unk_req_header_value = (unknownOf c ansi done).map (valueOf ansi)

theorem index_nodup : requestHeadersIndexS.Nodup := by decide +kernel

theorem newHeaders_sorted : Sorted c ansi [] newHeaders := ⟨rfl, rfl, rfl, rfl⟩

variable {c ansi}

theorem classify_sorted {done : AprTable} {w : HeaderFields} (h : Sorted c ansi done w) (e : CString × CString) :
    ∃ w', classify c ansi w e = .ok w' ∧ Sorted c ansi (done ++ [e]) w' := by
  have hkey : c.lower (ansi.decode e.1.val) = keyOf c ansi e := rfl
  have hknown := index_nodup.map_update (headerOf (keyOf c ansi) (valueOf ansi) done) (keyOf c ansi e)
    (some (valueOf ansi e))
  rw [← headerOf_append] at hknown
  unfold classify
  simp only [hkey]
  by_cases hmem : keyOf c ansi e ∈ requestHeadersIndexS
  · -- a known name: its place in the array is written
    have hnone : unknownOf c ansi (done ++ [e]) = unknownOf c ansi done := by simp [unknownOf, hmem]
    have hlt := List.idxOf_lt_length_of_mem hmem
    have hset : arraySet w.request_headers_value (requestHeadersIndexS.idxOf (keyOf c ansi e)) (some (valueOf ansi e)) =
        .ok (requestHeadersIndexS.map (headerOf (keyOf c ansi) (valueOf ansi) (done ++ [e]))) := by
      rw [hknown, if_pos hmem, h.known, arraySet, if_pos (by simpa using hlt), Int.toNat_natCast]
      -- two equality tests of strings, both lawful
      congr 3
      exact lawful_beq_subsingleton _ _
    rw [indexOf_eq, if_pos hmem, if_pos (by omega)]
    refine ⟨_, by rw [show ansi.decode e.2.val = valueOf ansi e from rfl, hset]; rfl, rfl, ?_, ?_, ?_⟩
    · rw [hnone]; exact h.name
    · rw [hnone]; exact h.index
    · rw [hnone]; exact h.value
  · -- any other name: the three lists grow by one
    have hone : unknownOf c ansi (done ++ [e]) = unknownOf c ansi done ++ [e] := by simp [unknownOf, hmem]
    rw [indexOf_of_notMem hmem, if_neg (by omega)]
    refine ⟨_, rfl, ?_, ?_, ?_, ?_⟩
    · rw [hknown, if_neg hmem]; exact h.known
    · rw [hone, List.map_append, ← h.name]; rfl
    · rw [hone, List.map_append, ← h.index]; rfl
    · rw [hone, List.map_append, ← h.value]; rfl

theorem classifyAll_sorted : ∀ (arr : AprTable) {done : AprTable} {w : HeaderFields}, Sorted c ansi done w →
    ∃ w', classifyAll c ansi w arr = .ok w' ∧ Sorted c ansi (done ++ arr) w'
  | [], done, w, h => ⟨w, rfl, by rwa [List.append_nil]⟩
  | e :: arr, done, w, h => by
    obtain ⟨w₁, h₁, hs₁⟩ := classify_sorted h e
    obtain ⟨w', h', hs'⟩ := classifyAll_sorted arr hs₁
    refine ⟨w', ?_, by rwa [List.append_assoc, List.singleton_append] at hs'⟩
    unfold classifyAll
    rw [h₁]
    exact h'

theorem unkReqHdrArr_map (f g : CString × CString → WString) : ∀ l : AprTable,
    unkReqHdrArr (l.map f) (l.map g) = .ok (l.map fun e => (f e, g e))
  | [] => rfl
  | e :: l => by
    simp only [List.map_cons, unkReqHdrArr, unkReqHdrArr_map f g l]
    rfl

/-- The constructor reads every table, and leaves the entries sorted. -/
theorem readHeaders_sorted (c : Culture) (ansi : CodePage) (headers_in : AprTable) : ∃ w, readHeaders c ansi headers_in = .ok w ∧
    Sorted c ansi headers_in w ∧
    w.unk_req_hdr_arr = (unknownOf c ansi headers_in).map fun e => (nameOf ansi e, valueOf ansi e) := by
  obtain ⟨w, hw, hs⟩ := classifyAll_sorted headers_in (newHeaders_sorted c ansi)
  rw [List.nil_append] at hs
  refine ⟨{ w with unk_req_hdr_arr := (unknownOf c ansi headers_in).map fun e => (nameOf ansi e, valueOf ansi e) },
    ?_, ⟨hs.known, hs.name, hs.index, hs.value⟩, rfl⟩
  unfold readHeaders
  rw [hw]
  show (unkReqHdrArr w.unk_req_header_name w.unk_req_header_value >>= _) = _
  rw [hs.name, hs.value, unkReqHdrArr_map]
  rfl

/-! ## The two views -/

theorem known_view {table : AprTable} {w : HeaderFields} (h : Sorted c ansi table w) {n : WString}
    (hn : c.lower n ∈ requestHeadersIndexS) :
    getKnownRequestHeader w (getKnownRequestHeaderIndex c n) =
      .ok (headerOf (keyOf c ansi) (valueOf ansi) table (c.lower n)) := by
  have hlt := List.idxOf_lt_length_of_mem hn
  have hmax : (requestHeadersIndexS.length : Int) = RequestHeaderMaximum := rfl
  have hat : requestHeadersIndexS[requestHeadersIndexS.idxOf (c.lower n)] = c.lower n := List.getElem_idxOf hlt
  unfold getKnownRequestHeader getKnownRequestHeaderIndex
  rw [indexOf_eq, if_pos hn, if_pos (by omega), arrayGet, h.known, Int.toNat_natCast, List.getElem?_map,
    List.getElem?_eq_getElem hlt, hat]
  simp

theorem known_view_of_notMem (w : HeaderFields) {n : WString} (hn : c.lower n ∉ requestHeadersIndexS) :
    getKnownRequestHeaderIndex c n = -1 ∧ getKnownRequestHeader w (getKnownRequestHeaderIndex c n) = .ok none := by
  unfold getKnownRequestHeaderIndex
  rw [indexOf_of_notMem hn]
  exact ⟨rfl, rfl⟩

theorem unknown_view {table : AprTable} {w : HeaderFields} (h : Sorted c ansi table w)
    (hd : (table.map (keyOf c ansi)).Nodup) {e : CString × CString} (he : e ∈ table) {n : WString}
    (hn : c.lower n ∉ requestHeadersIndexS) (hkey : keyOf c ansi e = c.lower n) :
    getUnknownRequestHeader c w n = .ok (some (valueOf ansi e)) := by
  have hmem : e ∈ unknownOf c ansi table := List.mem_filter.mpr ⟨he, by simpa [hkey] using hn⟩
  have hd' : ((unknownOf c ansi table).map (keyOf c ansi)).Nodup :=
    hd.sublist (List.filter_sublist.map _)
  obtain ⟨hpos, hget⟩ := listGet_parallel (keyOf c ansi) (valueOf ansi) hd' hmem
  unfold getUnknownRequestHeader
  rw [h.index, h.value, ← hkey]
  simp only [ge_iff_le, hpos, if_true, hget]
  rfl

/-- No name of the lists: nothing is found in them. -/
theorem unknown_view_none {table : AprTable} {w : HeaderFields} (h : Sorted c ansi table w) {n : WString}
    (hn : ∀ e ∈ table, keyOf c ansi e = c.lower n → c.lower n ∈ requestHeadersIndexS) :
    getUnknownRequestHeader c w n = .ok none := by
  have hno : c.lower n ∉ (unknownOf c ansi table).map (keyOf c ansi) := by
    rw [List.mem_map]
    rintro ⟨e, he, hkey⟩
    obtain ⟨hmem, hun⟩ := List.mem_filter.mp he
    rw [decide_eq_true_eq, hkey] at hun
    exact hun (hn e hmem hkey)
  unfold getUnknownRequestHeader
  rw [h.index, indexOf_of_notMem hno]
  rfl

end

/-! ## Known names, without regard to case -/

/-- A request header that has an index. -/
abbrev Known (n : Bytes) : Prop := fold n ∈ requestHeadersName.map fold

/-- The index list is the name list in lower case. -/
theorem index_eq_lower : requestHeadersIndexS = (requestHeadersName.map fold).map asciiText := by decide +kernel

theorem mem_index_iff (c : Culture) {n : Bytes} (hn : Ascii n) :
    c.lower (asciiText n) ∈ requestHeadersIndexS ↔ Known n := by
  rw [lower_asciiText c hn, index_eq_lower]
  exact List.mem_map_of_injective fun a b => asciiText_inj

theorem keyOf_eq (c : Culture) (ansi : CodePage) {e : CString × CString} (he : Ascii e.1.val) :
    keyOf c ansi e = asciiText (fold e.1.val) := by
  rw [keyOf, nameOf, ansi.ascii _ he, lower_asciiText c he]

/-- Every table of ASCII names pairwise different without regard to case: what
ASP.NET is told about a name, in any spelling, is what the table has. -/
theorem headers_classified (c : Culture) (ansi : CodePage) (headers_in : AprTable)
    (hascii : ∀ e ∈ headers_in, Ascii e.1.val) (hdistinct : (headers_in.map fun e => fold e.1.val).Nodup) :
    ∃ w, readHeaders c ansi headers_in = .ok w ∧
      (∀ n, Ascii n → ∀ e ∈ headers_in, fold e.1.val = fold n →
        (Known n →
          getKnownRequestHeader w (getKnownRequestHeaderIndex c (asciiText n)) = .ok (some (ansi.decode e.2.val)) ∧
          getUnknownRequestHeader c w (asciiText n) = .ok none) ∧
        (¬ Known n → getKnownRequestHeaderIndex c (asciiText n) = -1 ∧
          getUnknownRequestHeader c w (asciiText n) = .ok (some (ansi.decode e.2.val)))) ∧
      (∀ n, Ascii n → (∀ e ∈ headers_in, fold e.1.val ≠ fold n) →
        getKnownRequestHeader w (getKnownRequestHeaderIndex c (asciiText n)) = .ok none ∧
        getUnknownRequestHeader c w (asciiText n) = .ok none) ∧
      getUnknownRequestHeaders w =
        (headers_in.filter fun e => ¬ Known e.1.val).map fun e => (asciiText e.1.val, ansi.decode e.2.val) := by
  obtain ⟨w, hw, hs, harr⟩ := readHeaders_sorted c ansi headers_in
  have hkeys : (headers_in.map (keyOf c ansi)).Nodup := by
    have hmap : headers_in.map (keyOf c ansi) = (headers_in.map fun e => fold e.1.val).map asciiText := by
      rw [List.map_map]
      exact List.map_congr_left fun e he => keyOf_eq c ansi (hascii e he)
    rw [hmap]
    exact hdistinct.map fun a b => asciiText_inj
  have hkey_iff : ∀ e ∈ headers_in, ∀ n, Ascii n → (keyOf c ansi e = c.lower (asciiText n) ↔ fold e.1.val = fold n) := by
    intro e he n hn
    rw [keyOf_eq c ansi (hascii e he), lower_asciiText c hn]
    exact ⟨asciiText_inj, congrArg _⟩
  refine ⟨w, hw, ?_, ?_, ?_⟩
  · intro n hn e he hfold
    have hkey := (hkey_iff e he n hn).mpr hfold
    refine ⟨fun hk => ?_, fun hk => ?_⟩
    · have hmem := (mem_index_iff c hn).mpr hk
      refine ⟨?_, unknown_view_none hs fun _ _ _ => hmem⟩
      rw [known_view hs hmem, ← hkey, headerOf_of_mem _ _ hkeys he]
      rfl
    · have hmem := mt (mem_index_iff c hn).mp hk
      exact ⟨(known_view_of_notMem w hmem).1, unknown_view hs hkeys he hmem hkey⟩
  · intro n hn hno
    have hno' : ∀ e ∈ headers_in, keyOf c ansi e ≠ c.lower (asciiText n) :=
      fun e he => mt (hkey_iff e he n hn).mp (hno e he)
    refine ⟨?_, unknown_view_none hs fun e he hkey => absurd hkey (hno' e he)⟩
    by_cases hmem : c.lower (asciiText n) ∈ requestHeadersIndexS
    · rw [known_view hs hmem, headerOf_of_notMem _ _ hno']
    · exact (known_view_of_notMem w hmem).2
  · rw [getUnknownRequestHeaders, harr]
    have hfilter : unknownOf c ansi headers_in = headers_in.filter fun e => ¬ Known e.1.val := by
      refine List.filter_congr fun e he => decide_eq_decide.mpr (not_congr ?_)
      have := mem_index_iff c (hascii e he)
      rwa [← ansi.ascii _ (hascii e he)] at this
    rw [hfilter]
    refine List.map_congr_left fun e he => ?_
    rw [nameOf, ansi.ascii _ (hascii e (List.mem_of_mem_filter he))]
    rfl

/-- ASCII as the code page. -/
def asciiPage : CodePage := ⟨asciiText, fun _ _ => rfl⟩

theorem headers_classified_one : ∃ w,
    readHeaders asciiCulture asciiPage [(cstr (lit "hOST"), cstr (lit "a")), (cstr (lit "X-Y"), cstr (lit "b"))] = .ok w ∧
    getKnownRequestHeader w (getKnownRequestHeaderIndex asciiCulture (wlit "HOST")) = .ok (some (wlit "a")) ∧
    getUnknownRequestHeader asciiCulture w (wlit "x-y") = .ok (some (wlit "b")) ∧
    getUnknownRequestHeaders w = [(wlit "X-Y", wlit "b")] := by
  obtain ⟨w, hw, hin, -, hall⟩ := headers_classified asciiCulture asciiPage
    [(cstr (lit "hOST"), cstr (lit "a")), (cstr (lit "X-Y"), cstr (lit "b"))] (by decide +kernel) (by decide +kernel)
  refine ⟨w, hw, ?_, ?_, hall⟩
  · exact ((hin (lit "HOST") (by decide +kernel) _ List.mem_cons_self (by decide +kernel)).1 (by decide +kernel)).1
  · exact ((hin (lit "x-y") (by decide +kernel) _ (List.mem_cons_of_mem _ List.mem_cons_self) (by decide +kernel)).2 (by decide +kernel)).2

end ModAspNet.L5.RequestHeaders
