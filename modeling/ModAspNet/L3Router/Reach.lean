import ModAspNet.L2Config.Inherit
import ModAspNet.L3Router.AccessGate
import ModAspNet.L3Router.Coverage

/-!
# Which requests reach the factory

The sections around a request are merged into one configuration, whose flags the
file type gate tests; behind it come the path info, the mount table and COM. What
reaches the factory is read here off the directives, as the module counts them:
the merge keeps the innermost section only, the flag of directories is empty, and
the flags of files, of virtual requests and of "no directive" overlap.

* `passes_opens`: what one section lets past the gate.
* `reaches_iff`: for every chain of sections, every mount table and request, and
  whatever COM answers, when the factory is called and under which key.
-/
namespace ModAspNet.L3.Reach

open ModAspNet.L1.CStr ModAspNet.L2.DirConf ModAspNet.L2.Inherit ModAspNet.L2.Mount
open ModAspNet.L3.Handler ModAspNet.L3.Selection ModAspNet.L3.AccessGate
open ModAspNet.L3.Coverage (Admitted handler_reaches siteRequest siteEnv appTable)

/-! ## One section -/

section
variable {G : GetwordConf}

/-- What a section opens: files by `Files` or `Virtual`, or without a directive;
virtual requests by `Virtual` or `Files`; directories never. -/
def Opens (G : GetwordConf) (d : Option (Argument G)) : FileType → Prop
  | .APR_REG => d = none ∨ .Files ∈ allowed G d ∨ .Virtual ∈ allowed G d
  | .APR_NOFILE => .Files ∈ allowed G d ∨ .Virtual ∈ allowed G d
  | _ => False

theorem passes_opens (d : Option (Argument G)) (r : RequestRec) (uri : CString) :
    Passes (dirconfOf G d) r uri ↔ Opens G d r.filetype := by
  rw [passes_iff]
  cases d with
  | none =>
    have hfiles : enabled (dirconfOf G none) ASPNET_FILES = true := by
      show enabled createAspNetDirconf _ = _; decide
    have hdirs : enabled (dirconfOf G none) ASPNET_DIRS = false := by
      show enabled createAspNetDirconf _ = _; decide
    have hvirtual : enabled (dirconfOf G none) ASPNET_VIRTUAL = false := by
      show enabled createAspNetDirconf _ = _; decide
    cases r.filetype <;> simp [Opens, allowed, hfiles, hdirs, hvirtual]
  | some a =>
    obtain ⟨hfiles, hdirs, hvirtual⟩ := enabled_flagsOf (meaning a.opts)
    rw [dirconfOf_some, hfiles, hdirs, hvirtual]
    cases r.filetype <;> simp [Opens, allowed]

end

/-! ## The gates behind it -/

/-- The path info is not refused. -/
def TakesPathInfo (r : RequestRec) : Prop :=
  r.used_path_info = .AP_REQ_REJECT_PATH_INFO → ∀ p ∈ r.path_info, p.val = []

/-- The thread can call COM, at the first attempt or after a changed mode. -/
def ComReady (env : Env) : Prop :=
  0 ≤ if env.coInitializeEx = RPC_E_CHANGED_MODE then env.coInitialize else env.coInitializeEx

section
variable {d : Dirconf} {env : Env} {r : RequestRec}

theorem pathInfoGate_eq_none : pathInfoGate r = none ↔ TakesPathInfo r := by
  unfold pathInfoGate TakesPathInfo
  cases r.path_info with
  | none => simp
  | some p => simp

theorem dispatch_ready {g : HostTable} {uri : CString} {host : HostPtr} {k : Int}
    (h : (dispatch g env r uri host).dispatched = some k) : ComReady env := by
  by_contra hnot
  unfold ComReady at hnot
  unfold dispatch at h
  dsimp only at h
  rw [if_pos (by omega)] at h
  cases h

/-- A request that reaches the factory came past every gate. -/
theorem admitted_of_dispatched {g : HostTable} {order : List Alias} {k : Int}
    (h : (aspNetHandler d g order env r).dispatched = some k) : ∃ uri, Admitted d env r uri := by
  unfold aspNetHandler at h
  split at h
  · cases h
  rename_i hnamed
  split at h
  · cases h
  rename_i uri huri
  split at h
  · cases h
  rename_i hslash
  split at h
  · cases h
  rename_i htype
  unfold afterGate at h
  split at h
  · cases h
  rename_i hinfo
  split at h
  · cases h
  rename_i host hsel
  exact ⟨uri, ⟨not_not.mp hnamed, huri, not_not.mp hslash⟩, htype, hinfo, dispatch_ready h⟩

/-- … and one that does reaches it under the key of the selected host. -/
theorem dispatched_iff {g : HostTable} {items : AprHash Alias} {k : Int} :
    (aspNetHandler d g (items.map Prod.snd) env r).dispatched = some k ↔
      ∃ uri host, Admitted d env r uri ∧ selected uri items = some host ∧ hostKey g host = k := by
  constructor
  · intro h
    obtain ⟨uri, hadmitted⟩ := admitted_of_dispatched h
    rw [handler_reaches hadmitted, Option.map_eq_some_iff] at h
    obtain ⟨host, hsel, hk⟩ := h
    exact ⟨uri, host, hadmitted, hsel, hk⟩
  · rintro ⟨uri, host, hadmitted, hsel, hk⟩
    rw [handler_reaches hadmitted, hsel, Option.map_some, hk]

end

/-! ## Every chain of sections -/

section
variable (G : GetwordConf)

/-- The line of a section's directive. -/
def lineOf (s : Option (Argument G)) : SectionArg := s.map Argument.line

theorem sectionConf_line (s : Option (Argument G)) : sectionConf G (lineOf G s) = dirconfOf G s := by
  cases s <;> rfl

theorem effective_lines (outer : Option (Argument G)) (inner : List (Option (Argument G))) :
    effective G (lineOf G outer) (inner.map (lineOf G)) = some (dirconfOf G (inner.getLastD outer)) := by
  rw [effective_eq, ← sectionConf_line, List.getLastD_eq_getLast?, List.getLastD_eq_getLast?, List.getLast?_map,
    Option.getD_map]

/-- For every chain of sections, mount table, request and answers of COM: the
factory is called, and under the key `k`, exactly for a request to this handler
with an absolute URI, of a file type that the innermost section opens, whose path
info is taken, whose URI selects a host with that key, on a thread that COM is
ready for. What the outer sections say does not matter. -/
theorem reaches_iff (outer : Option (Argument G)) (inner : List (Option (Argument G))) (g : HostTable)
    (items : AprHash Alias) (env : Env) (r : RequestRec) (k : Int) :
    ((effective G (lineOf G outer) (inner.map (lineOf G))).bind fun d =>
      (aspNetHandler d g (items.map Prod.snd) env r).dispatched) = some k ↔
    ∃ uri host, r.Absolute uri ∧ Opens G (inner.getLastD outer) r.filetype ∧ TakesPathInfo r ∧ ComReady env ∧
      selected uri items = some host ∧ hostKey g host = k := by
  rw [effective_lines, Option.bind_some, dispatched_iff]
  constructor
  · rintro ⟨uri, host, ⟨habs, htype, hinfo, hcom⟩, hsel, hk⟩
    exact ⟨uri, host, habs, (passes_opens _ r uri).mp htype, pathInfoGate_eq_none.mp hinfo, hcom, hsel, hk⟩
  · rintro ⟨uri, host, habs, hopens, hinfo, hcom, hsel, hk⟩
    exact ⟨uri, host, ⟨habs, (passes_opens _ r uri).mpr hopens, pathInfoGate_eq_none.mpr hinfo, hcom⟩, hsel, hk⟩

end

/-- A file in a section without a directive, inside one with `AspNet none`. -/
example : ((effective blankWords (some (cstr (lit "none"))) [none]).bind fun d =>
    (aspNetHandler d ⟨[], []⟩ (appTable.map Prod.snd) siteEnv (siteRequest (cstr (lit "/App/x.aspx")))).dispatched) =
      some (-1) := by decide +kernel

end ModAspNet.L3.Reach
