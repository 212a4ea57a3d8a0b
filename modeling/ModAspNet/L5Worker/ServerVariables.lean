import ModAspNet.Core.Delimited
import ModAspNet.L5Worker.RequestHeaders

/-!
# Server variables

The `WorkerRequest` constructor copies `rr->subprocess_env` to two lists that run
in parallel. ASP.NET asks for a variable by its name, or, under the name
`ALL_RAW`, for all of them in one string: `name=value`, each with a NUL behind
it, and a NUL at the end.

* `readEnv_eq`: the lists hold the table.
* `rawText_eq`, `rawSize_eq`: the two loops for `ALL_RAW`.
* `query_eq`: one name is looked up, and the first entry counts.
* `serverVariables_agree`: the string is a block whose length was computed beforehand,
  and reads back as the table exactly when no name has a `=` in it.
-/
namespace ModAspNet.L5.ServerVariables

open ModAspNet.L1.CStr ModAspNet.L1.Managed
open ModAspNet.Core (block readEntries entry readEntries_iff)
open ModAspNet.L5.Headers (AprTable)
open ModAspNet.L5.RequestHeaders

/-- The fields of `WorkerRequest` that hold the environment. -/
structure EnvFields where
  env_name : List WString
  env_value : List WString

/-- mirrors Apache.Web/WorkerRequest.cpp:42-43 -/
def newEnv : EnvFields := ⟨[], []⟩

/-- mirrors Apache.Web/WorkerRequest.cpp:104-112 -/
def readEnv (ansi : CodePage) : EnvFields → AprTable → EnvFields
  | w, [] => w
  | w, pair :: arr =>
    readEnv ansi ⟨w.env_name ++ [ansi.decode pair.1.val], w.env_value ++ [ansi.decode pair.2.val]⟩ arr

/-- An `int`. -/
def int32 (n : Int) : Int := n.bmod 4294967296

/-- mirrors Apache.Web/WorkerRequest.h:309-313 -/
def rawSize : Int → List WString → List WString → Except Exn Int
  | size, [], _ => .ok size
  | _, _ :: _, [] => .error .ArgumentOutOfRangeException
  | size, name :: names, value :: values =>
    rawSize (int32 (int32 (size + (name.length + 1)) + (value.length + 1))) names values

/-- An empty builder with room for `size` units. -/
def newStringBuilder (size : Int) : Except Exn WString :=
  if size < 0 then .error .ArgumentOutOfRangeException else .ok []

/-- `L"\0", 0, 1` is one unit. mirrors Apache.Web/WorkerRequest.h:315-320 -/
def rawText : WString → List WString → List WString → Except Exn WString
  | res, [], _ => .ok res
  | _, _ :: _, [] => .error .ArgumentOutOfRangeException
  | res, name :: names, value :: values => rawText (res ++ name ++ wlit "=" ++ value ++ [0]) names values

/-- `nullptr` is `none`. mirrors Apache.Web/WorkerRequest.h:306-344 -/
def getServerVariable (w : EnvFields) (name : WString) : Except Exn (Option WString) := do
  if name = wlit "ALL_RAW" then
    let size ← rawSize 1 w.env_name w.env_value
    let res ← newStringBuilder size
    let res ← rawText res w.env_name w.env_value
    return some (res ++ [0])
  else
    let ent := indexOf w.env_name name
    if ent ≥ 0 then
      let val ← listGet w.env_value ent
      return some val
    else return none

/-! ## The lists -/

/-- The variables of a table, as text. -/
def envVars (ansi : CodePage) (env : AprTable) : List (WString × WString) :=
  env.map fun e => (nameOf ansi e, valueOf ansi e)

theorem readEnv_append (ansi : CodePage) : ∀ (env : AprTable) (w : EnvFields),
    readEnv ansi w env = ⟨w.env_name ++ (envVars ansi env).map Prod.fst, w.env_value ++ (envVars ansi env).map Prod.snd⟩
  | [], w => by simp [readEnv, envVars]
  | e :: env, w => by
    rw [readEnv, readEnv_append ansi env]
    simp [envVars, nameOf, valueOf]

theorem readEnv_eq (ansi : CodePage) (env : AprTable) :
    readEnv ansi newEnv env = ⟨(envVars ansi env).map Prod.fst, (envVars ansi env).map Prod.snd⟩ :=
  readEnv_append ansi env newEnv

/-! ## All of them -/

theorem rawText_eq : ∀ (vars : List (WString × WString)) (res : WString),
    rawText res (vars.map Prod.fst) (vars.map Prod.snd) = .ok (res ++ (vars.map (entry 61)).flatMap (· ++ [0]))
  | [], res => by simp [rawText]
  | p :: vars, res => by
    have hsign : wlit "=" = [61] := by decide +kernel
    rw [List.map_cons, List.map_cons, rawText, rawText_eq vars]
    simp [entry, hsign]

/-- The room the variables take. -/
def room : List (WString × WString) → Nat
  | [] => 0
  | p :: vars => p.1.length + 1 + (p.2.length + 1) + room vars

theorem length_entries : ∀ vars : List (WString × WString),
    ((vars.map (entry 61)).flatMap (· ++ [0])).length = room vars
  | [] => rfl
  | p :: vars => by
    have ih := length_entries vars
    simp only [room, entry, List.map_cons, List.flatMap_cons, List.length_append, List.length_cons, List.length_nil,
      ih]
    omega

theorem int32_eq {n : Int} (h₀ : 0 ≤ n) (h : n < 2147483648) : int32 n = n := by
  unfold int32
  rw [Int.bmod_def]
  omega

theorem rawSize_eq : ∀ (vars : List (WString × WString)) (size : Nat), size + room vars < 2147483648 →
    rawSize size (vars.map Prod.fst) (vars.map Prod.snd) = .ok ((size + room vars : Nat) : Int)
  | [], size, _ => by simp [rawSize, room]
  | p :: vars, size, h => by
    unfold room at h ⊢
    have hname : int32 (size + (p.1.length + 1)) = (size + (p.1.length + 1) : Int) := int32_eq (by omega) (by omega)
    have hvalue : int32 ((size + (p.1.length + 1) : Int) + (p.2.length + 1)) =
        ((size + (p.1.length + 1 + (p.2.length + 1)) : Nat) : Int) := by
      rw [int32_eq (by omega) (by omega)]
      omega
    rw [List.map_cons, List.map_cons, rawSize, hname, hvalue, rawSize_eq vars _ (by omega), Nat.add_assoc]

/-! ## One of them -/

theorem query_eq (vars : List (WString × WString)) (name : WString) (hname : name ≠ wlit "ALL_RAW") :
    getServerVariable ⟨vars.map Prod.fst, vars.map Prod.snd⟩ name = .ok (vars.lookup name) := by
  have hlookup : vars.lookup name = if name ∈ vars.map Prod.fst then
      (vars.map Prod.snd)[(vars.map Prod.fst).idxOf name]? else none := by
    induction vars with
    | nil => rfl
    | cons p vars ih =>
      obtain ⟨n, v⟩ := p
      by_cases he : name = n
      · simp [he]
      · have hne : (name == n) = false := by simpa using he
        rw [List.lookup_cons, hne]
        simp only [ih, List.map_cons, List.mem_cons, he, false_or, List.idxOf_cons_ne _ (Ne.symm he),
          List.getElem?_cons_succ]
  unfold getServerVariable
  rw [if_neg hname]
  dsimp only
  rw [indexOf_eq, hlookup]
  by_cases hmem : name ∈ vars.map Prod.fst
  · have hlt : (vars.map Prod.fst).idxOf name < (vars.map Prod.snd).length := by
      simpa using List.idxOf_lt_length_of_mem hmem
    rw [if_pos hmem, if_pos (by omega), if_pos hmem]
    unfold listGet
    rw [Int.toNat_natCast, List.getElem?_eq_getElem hlt]
    simp
  · rw [if_neg hmem, if_neg (by omega), if_neg hmem]
    rfl

/-! ## Both views -/

/-- For every environment of less than 2 GB: the string for `ALL_RAW` has the
length computed for it, and reads back as the environment exactly when no name
has a `=` in it; any other name gets the value of its first entry, or null. -/
theorem serverVariables_agree (ansi : CodePage) (hnul : ∀ b, 0 ∉ b → 0 ∉ ansi.decode b) (env : AprTable)
    (hroom : room (envVars ansi env) < 2147483647) :
    ∃ raw, getServerVariable (readEnv ansi newEnv env) (wlit "ALL_RAW") = .ok (some raw) ∧
      rawSize 1 (readEnv ansi newEnv env).env_name (readEnv ansi newEnv env).env_value = .ok raw.length ∧
      (readEntries 0 61 raw = envVars ansi env ↔ ∀ p ∈ envVars ansi env, 61 ∉ p.1) ∧
      ∀ name, name ≠ wlit "ALL_RAW" →
        getServerVariable (readEnv ansi newEnv env) name = .ok ((envVars ansi env).lookup name) := by
  rw [readEnv_eq]
  have hsize : rawSize 1 ((envVars ansi env).map Prod.fst) ((envVars ansi env).map Prod.snd) =
      .ok ((1 + room (envVars ansi env) : Nat) : Int) := rawSize_eq (envVars ansi env) 1 (by omega)
  have hbuilder : newStringBuilder ((1 + room (envVars ansi env) : Nat) : Int) = .ok [] := if_neg (by omega)
  refine ⟨block 0 ((envVars ansi env).map (entry 61)), ?_, ?_, readEntries_iff (by decide) fun p hp => ?_,
    query_eq (envVars ansi env)⟩
  · unfold getServerVariable
    rw [if_pos rfl]
    dsimp only
    simp only [hsize, hbuilder, rawText_eq, bind, Except.bind, List.nil_append]
    rfl
  · rw [hsize, block, List.length_append, length_entries, Nat.add_comm]
    rfl
  · obtain ⟨e, -, rfl⟩ := List.mem_map.mp hp
    exact ⟨hnul _ e.1.nonul, hnul _ e.2.nonul⟩

theorem serverVariables_agree_query : ∃ raw,
    getServerVariable (readEnv asciiPage newEnv [(cstr (lit "HTTPS"), cstr (lit "on")), (cstr (lit "Q"), cstr (lit "a=b"))])
      (wlit "ALL_RAW") = .ok (some raw) ∧
    readEntries 0 61 raw = [(wlit "HTTPS", wlit "on"), (wlit "Q", wlit "a=b")] ∧
    getServerVariable (readEnv asciiPage newEnv [(cstr (lit "HTTPS"), cstr (lit "on")), (cstr (lit "Q"), cstr (lit "a=b"))])
      (wlit "Q") = .ok (some (wlit "a=b")) := by
  have hnul : ∀ b : Bytes, 0 ∉ b → 0 ∉ asciiPage.decode b := by
    intro b hb h0
    obtain ⟨x, hx, hzero⟩ := List.mem_map.mp (h0 : (0 : UInt16) ∈ b.map UInt8.toUInt16)
    obtain rfl : x = 0 := UInt8.toNat_inj.mp (by simpa using congrArg UInt16.toNat hzero)
    exact hb hx
  obtain ⟨raw, hraw, -, hread, hquery⟩ := serverVariables_agree asciiPage hnul
    [(cstr (lit "HTTPS"), cstr (lit "on")), (cstr (lit "Q"), cstr (lit "a=b"))] (by decide +kernel)
  refine ⟨raw, hraw, ?_, ?_⟩
  · exact (hread.mpr (by decide +kernel)).trans (by decide +kernel)
  · exact (hquery _ (by decide +kernel)).trans (by decide +kernel)

end ModAspNet.L5.ServerVariables
