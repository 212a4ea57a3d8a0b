import ModAspNet.L2Config.DirConf
import ModAspNet.L2Config.Mount

/-!
# `asp_net_handler`

The content handler httpd calls for each request: it checks the handler name
and the URI, refuses by file type what the `AspNet` directive does not enable,
looks for a mount that begins the URI, and hands the request to the managed
host factory under the key of that mount's host record.

What it calls and what is not under the repository enters as data: the two
`HRESULT`s of `CoInitializeEx` / `CoInitialize`, the end of the managed call
(`Managed`), and the order in which `apr_hash_first` / `apr_hash_next`
enumerate the alias table (`order`).

* `selectHost_eq_find`: the loop is a search for the first alias in the
  enumeration whose virtual path begins the URI.
* `aspNetHandler_refused`, `aspNetHandler_passed`: the file type gate is the
  first thing that can stop an absolute `asp.net` request.
* `aspNetHandler_dispatched`: a request reaches the factory only under the
  key of the host the loop selected.
-/
namespace ModAspNet.L3.Handler

open ModAspNet.L1.CStr ModAspNet.L2.DirConf ModAspNet.L2.Mount
open ModAspNet.Core

/-! ## The request -/

/-- `apr_filetype_e`; mirrors apache2_4_include/apr_file_info.h:62-73 -/
inductive FileType where
  | APR_NOFILE | APR_REG | APR_DIR | APR_CHR | APR_BLK | APR_PIPE | APR_LNK | APR_SOCK | APR_UNKFILE
  deriving DecidableEq, Repr

/-- mirrors apache2_4_include/httpd.h:706-710 -/
inductive UsedPathInfo where
  | AP_REQ_ACCEPT_PATH_INFO | AP_REQ_REJECT_PATH_INFO | AP_REQ_DEFAULT_PATH_INFO
  deriving DecidableEq, Repr

/-- The fields of `request_rec` the handler reads. -/
structure RequestRec where
  handler : Option CString
  uri : Option CString
  filename : CString
  filetype : FileType
  used_path_info : UsedPathInfo
  path_info : Option CString

def OK : Int := 0
def DECLINED : Int := -1
def HTTP_FORBIDDEN : Int := 403
def HTTP_NOT_FOUND : Int := 404
def HTTP_INTERNAL_SERVER_ERROR : Int := 500

/-- A status and the lines logged on the way to it. -/
structure Refusal where
  status : Int
  log : List Bytes
  deriving DecidableEq

/-! ## The checks before the mount table -/

/-- `if (dirconf->enable & flag)` -/
def enabled (d : Dirconf) (flag : Nat) : Bool := d.enable &&& flag != 0

/-- mirrors mod/mod_aspdotnet.cpp:573-611 -/
def fileTypeGate (d : Dirconf) (r : RequestRec) (uri : CString) : Option Refusal :=
  match r.filetype with
  | .APR_REG =>
    if !enabled d ASPNET_FILES then
      some ⟨HTTP_FORBIDDEN, [lit "mod_aspdotnet: Forbidden, 'AspNet Files' is not enabled for: " ++
        uri.val ++ lit " (file " ++ r.filename.val ++ lit ")"]⟩
    else none
  | .APR_DIR =>
    if !enabled d ASPNET_DIRS then
      some ⟨HTTP_FORBIDDEN, [lit "mod_aspdotnet: Forbidden, 'AspNet Dirs' is not enabled for: " ++
        uri.val ++ lit " (directory " ++ r.filename.val ++ lit ")"]⟩
    else none
  | .APR_NOFILE =>
    if !enabled d ASPNET_VIRTUAL then
      some ⟨HTTP_NOT_FOUND,
        (lit "mod_aspdotnet: Forbidden, 'AspNet Virtual'is not enabled for: " ++ uri.val) ::
          if enabled d (ASPNET_FILES ||| ASPNET_DIRS) then
            [lit "mod_aspdotnet: File not found or unable to stat: " ++ r.filename.val]
          else []⟩
    else none
  | _ =>
    some ⟨HTTP_NOT_FOUND, [lit "mod_aspdotnet: Invalid file type for: " ++ r.filename.val ++
      lit " (it is not a recognized file or directory)"]⟩

/-- mirrors mod/mod_aspdotnet.cpp:613-621 -/
def pathInfoGate (r : RequestRec) : Option Refusal :=
  match r.path_info with
  | none => none
  | some path_info =>
    if r.used_path_info = .AP_REQ_REJECT_PATH_INFO ∧ path_info.val ≠ [] then
      some ⟨HTTP_NOT_FOUND, [lit "mod_aspdotnet: AcceptPathInfo off for " ++ r.filename.val ++
        lit " disallows user's path " ++ path_info.val]⟩
    else none

/-! ## The mount table -/

/-- The test of the loop: the alias's virtual path begins the URI, without
regard to case. mirrors mod/mod_aspdotnet.cpp:634-635 -/
def covers (uri : CString) (m : Alias) : Bool :=
  strncasecmp m.virtual_path_len m.virtual_path.str.val uri.val = 0

/-- The loop over the alias table in the order of its enumeration, left at the
first alias that passes. mirrors mod/mod_aspdotnet.cpp:627-639 -/
def selectHost (uri : CString) : List Alias → Option HostPtr
  | [] => none
  | m :: items => if covers uri m then some m.host else selectHost uri items

theorem selectHost_eq_find (uri : CString) (order : List Alias) :
    selectHost uri order = (order.find? (covers uri)).map Alias.host := by
  induction order with
  | nil => rfl
  | cons m items ih =>
    unfold selectHost
    cases h : covers uri m
    · simp [h, ih]
    · simp [h]

/-- An alias passes exactly when the folded virtual path begins the folded URI. -/
theorem covers_iff (uri : CString) (m : Alias) :
    covers uri m = true ↔ fold m.virtual_path.str.val <+: fold uri.val := by
  simp only [covers, decide_eq_true_eq, m.len_eq]
  exact strncasecmp_eq_zero m.virtual_path.str uri.val

/-! ## The handler -/

/-- How the call of `HandleHostRequest` ends: a status, or one of the three
`catch` clauses; `desc` is the description of a `_com_error`, if it has one. -/
inductive Managed where
  | status (n : Int)
  | comError (desc : Option Bytes)
  | hresult
  | other

/-- What the run-time system answers: `CoInitializeEx`, `CoInitialize` (asked
only after `RPC_E_CHANGED_MODE`), and the managed call for a host key. -/
structure Env where
  coInitializeEx : Int
  coInitialize : Int
  managed : Int → Managed

def RPC_E_CHANGED_MODE : Int := -2147417850

/-- The status of a request, the lines logged, and the host key the factory
was called with, if it was called. -/
structure Outcome where
  status : Int
  log : List Bytes
  dispatched : Option Int

/-- The key of the record a host pointer points to. Pointers handed out by
`mount_cmd` always point to a record. -/
def hostKey (g : HostTable) (host : HostPtr) : Int :=
  match g.records[host]? with
  | some r => r.host_key
  | none => -1

/-- The call of the factory and its `catch` clauses.
mirrors mod/mod_aspdotnet.cpp:653-700 -/
def dispatch (g : HostTable) (env : Env) (r : RequestRec) (uri : CString) (host : HostPtr) : Outcome :=
  let hr := if env.coInitializeEx = RPC_E_CHANGED_MODE then env.coInitialize else env.coInitializeEx
  if hr < 0 then
    ⟨HTTP_INTERNAL_SERVER_ERROR, [lit "mod_aspdotnet: CoInitialize failed!"], none⟩
  else
    let failed := lit "mod_aspdotnet: CreateRequest " ++ uri.val ++ lit " processing failed, file " ++
      r.filename.val
    match env.managed (hostKey g host) with
    | .status n => ⟨n, [], some (hostKey g host)⟩
    | .comError none => ⟨HTTP_INTERNAL_SERVER_ERROR, [failed], some (hostKey g host)⟩
    | .comError (some desc) =>
      ⟨HTTP_INTERNAL_SERVER_ERROR, [failed, lit "mod_aspdotnet: " ++ desc], some (hostKey g host)⟩
    | .hresult => ⟨HTTP_INTERNAL_SERVER_ERROR, [failed], some (hostKey g host)⟩
    | .other => ⟨HTTP_INTERNAL_SERVER_ERROR, [failed], some (hostKey g host)⟩

/-- The part of the handler after the file type gate.
mirrors mod/mod_aspdotnet.cpp:613-700 -/
def afterGate (g : HostTable) (order : List Alias) (env : Env) (r : RequestRec) (uri : CString) : Outcome :=
  match pathInfoGate r with
  | some f => ⟨f.status, f.log, none⟩
  | none =>
    match selectHost uri order with
    | none =>
      ⟨HTTP_INTERNAL_SERVER_ERROR, [lit "mod_aspdotnet: No AspNetMount URI for request: " ++ uri.val], none⟩
    | some host => dispatch g env r uri host

/-- mirrors mod/mod_aspdotnet.cpp:556-701 -/
def aspNetHandler (d : Dirconf) (g : HostTable) (order : List Alias) (env : Env) (r : RequestRec) : Outcome :=
  if r.handler.map CString.val ≠ some (lit "asp.net") then ⟨DECLINED, [], none⟩
  else
    match r.uri with
    | none =>
      ⟨HTTP_FORBIDDEN, [lit "mod_aspdotnet: Forbidden, request URI was not absolute: <NULL>"], none⟩
    | some uri =>
      if uri.val.head? ≠ some 47 then
        ⟨HTTP_FORBIDDEN, [lit "mod_aspdotnet: Forbidden, request URI was not absolute: " ++ uri.val], none⟩
      else
        match fileTypeGate d r uri with
        | some f => ⟨f.status, f.log, none⟩
        | none => afterGate g order env r uri

/-- A request httpd gives to this handler with an absolute URI. -/
structure RequestRec.Absolute (r : RequestRec) (uri : CString) : Prop where
  named : r.handler.map CString.val = some (lit "asp.net")
  uri_eq : r.uri = some uri
  slash : uri.val.head? = some 47

section
variable {d : Dirconf} {g : HostTable} {order : List Alias} {env : Env} {r : RequestRec} {uri : CString}

theorem aspNetHandler_eq (h : r.Absolute uri) :
    aspNetHandler d g order env r = match fileTypeGate d r uri with
      | some f => ⟨f.status, f.log, none⟩
      | none => afterGate g order env r uri := by
  simp [aspNetHandler, h.named, h.uri_eq, h.slash]

theorem aspNetHandler_refused (h : r.Absolute uri) {f : Refusal} (hf : fileTypeGate d r uri = some f) :
    aspNetHandler d g order env r = ⟨f.status, f.log, none⟩ := by
  rw [aspNetHandler_eq h, hf]

theorem aspNetHandler_passed (h : r.Absolute uri) (hf : fileTypeGate d r uri = none) :
    aspNetHandler d g order env r = afterGate g order env r uri := by
  rw [aspNetHandler_eq h, hf]

theorem dispatch_dispatched {host : HostPtr} {k : Int} (h : (dispatch g env r uri host).dispatched = some k) :
    k = hostKey g host := by
  simp only [dispatch] at h
  generalize (if env.coInitializeEx = RPC_E_CHANGED_MODE then env.coInitialize
    else env.coInitializeEx) = hr at h
  split at h
  · cases h
  · split at h <;> cases h <;> rfl

/-- A request reaches the factory only under the key of the host selected for
its URI. -/
theorem aspNetHandler_selected {k : Int} (h : (aspNetHandler d g order env r).dispatched = some k) :
    ∃ uri host, r.uri = some uri ∧ selectHost uri order = some host ∧ k = hostKey g host := by
  unfold aspNetHandler at h
  split at h
  · cases h
  split at h
  · cases h
  rename_i uri huri
  split at h
  · cases h
  split at h
  · cases h
  unfold afterGate at h
  split at h
  · cases h
  split at h
  · cases h
  rename_i host hsel
  exact ⟨uri, host, huri, hsel, dispatch_dispatched h⟩

theorem aspNetHandler_dispatched {k : Int} (h : (aspNetHandler d g order env r).dispatched = some k) :
    ∃ uri host, selectHost uri order = some host ∧ k = hostKey g host := by
  obtain ⟨uri, host, -, hsel, hk⟩ := aspNetHandler_selected h
  exact ⟨uri, host, hsel, hk⟩

end

end ModAspNet.L3.Handler
