import Mathlib.Data.List.DropRight
import ModAspNet.L1Text.Managed
import ModAspNet.L3Router.Selection

/-!
# The URIs a mount takes

A mount stands for the URI it was written with and everything below it, and
`CreateHost` (`Apache.Web/HostFactory.h:169`) notes that trailing slashes are
acceptable. The loop of the handler compares bytes: it takes the URIs that
begin with the path as spelled, also where the segment goes on, and not the
path itself when it was spelled with a slash.

* `handler_reaches`: past the gates, the handler dispatches to what the loop
  selects.
* `own_space_iff`: in every order of the table the requests a mount gets are
  those of its own space, exactly when no spelling takes a URI for a mount whose
  space does not have it, or leaves one out.
-/
namespace ModAspNet.L3.Coverage

open ModAspNet.L1.CStr ModAspNet.L2.DirConf ModAspNet.L2.Mount
open ModAspNet.L1.Managed (Ascii)
open ModAspNet.L3.Handler ModAspNet.L3.Selection

/-! ## Past the gates -/

/-- A request that no gate before the mount table stops, on a thread that COM is
ready for. -/
structure Admitted (d : Dirconf) (env : Env) (r : RequestRec) (uri : CString) : Prop where
  absolute : r.Absolute uri
  type : fileTypeGate d r uri = none
  info : pathInfoGate r = none
  com : 0 ≤ if env.coInitializeEx = RPC_E_CHANGED_MODE then env.coInitialize else env.coInitializeEx

section
variable {d : Dirconf} {env : Env} {r : RequestRec} {uri : CString}

theorem dispatch_reaches (h : Admitted d env r uri) (g : HostTable) (host : HostPtr) :
    (dispatch g env r uri host).dispatched = some (hostKey g host) := by
  have hcom := h.com
  unfold dispatch
  dsimp only
  rw [if_neg (by omega)]
  split <;> rfl

/-- The key of the selected host, when one is selected. -/
theorem handler_reaches (h : Admitted d env r uri) (g : HostTable) (items : AprHash Alias) :
    (aspNetHandler d g (items.map Prod.snd) env r).dispatched = (selected uri items).map (hostKey g) := by
  rw [aspNetHandler_passed h.absolute h.type]
  unfold afterGate selected
  rw [h.info]
  dsimp only
  cases selectHost uri (items.map Prod.snd) with
  | none => rfl
  | some host => exact dispatch_reaches h g host

end

/-! ## A mount's own space -/

/-- The mount path without its trailing slashes. -/
def mountRoot (m : Alias) : Bytes := m.virtual_path.str.val.rdropWhile (· = 47)

/-- Without regard to case, the URI is the root of the mount, or goes on after
it with '/'. -/
def InOwnSpace (uri : CString) (m : Alias) : Prop :=
  fold uri.val = fold (mountRoot m) ∨ fold (mountRoot m ++ [47]) <+: fold uri.val

instance (uri : CString) (m : Alias) : Decidable (InOwnSpace uri m) := inferInstanceAs (Decidable (_ ∨ _))

/-- However the table is enumerated, the request is dispatched when its URI is
in the space of a mount, and then to the host of such a mount. -/
def ServesOwnSpace (d : Dirconf) (g : HostTable) (aliases : AprHash Alias) (env : Env) (r : RequestRec)
    (uri : CString) : Prop :=
  ∀ items : AprHash Alias, items.Perm aliases →
    ((aspNetHandler d g (items.map Prod.snd) env r).dispatched.isSome ↔ ∃ e ∈ aliases, InOwnSpace uri e.2) ∧
    ∀ k, (aspNetHandler d g (items.map Prod.snd) env r).dispatched = some k →
      ∃ e ∈ aliases, InOwnSpace uri e.2 ∧ hostKey g e.2.host = k

/-- The trailing slashes of a mount path. -/
def mountSlashes (m : Alias) : Bytes := m.virtual_path.str.val.rtakeWhile (· = 47)

/-- The URI begins with a path written without a trailing slash, and the segment
goes on after it. -/
def CutsSegment (uri : CString) (m : Alias) : Prop :=
  ∃ t, fold uri.val = fold (mountRoot m) ++ t ∧ mountSlashes m = [] ∧ t ≠ [] ∧ t.head? ≠ some 47

/-- The URI is in the mount's space, but the path was written with more slashes
than the URI has behind the root. -/
def OverSlashed (uri : CString) (m : Alias) : Prop :=
  ∃ t, fold uri.val = fold (mountRoot m) ++ t ∧ (t = [] ∨ t.head? = some 47) ∧ ¬ mountSlashes m <+: t

/-- A path that cuts a segment of the URI belongs to the host of a mount that
has the URI in its space; and beside an over-slashed mount another path begins
the URI. -/
structure SpellingsFit (g : HostTable) (aliases : AprHash Alias) (uri : CString) : Prop where
  taken : ∀ e ∈ aliases, CutsSegment uri e.2 →
    ∃ e' ∈ aliases, InOwnSpace uri e'.2 ∧ hostKey g e'.2.host = hostKey g e.2.host
  missed : ∀ e ∈ aliases, OverSlashed uri e.2 → ∃ e', Covering uri aliases e'

/-! ## Spellings and spaces -/

section
variable {uri : CString} {m : Alias}

theorem eq_slash {x : UInt8} (h : x ∈ mountSlashes m) : x = 47 := by
  have := List.mem_rtakeWhile_imp h
  simpa using this

theorem fold_path (m : Alias) : fold m.virtual_path.str.val = fold (mountRoot m) ++ mountSlashes m := by
  have hsame : fold (mountSlashes m) = mountSlashes m := by
    refine (List.map_congr_left fun x hx => ?_).trans (List.map_id _)
    rw [eq_slash hx]
    rfl
  conv_lhs => rw [← List.rdropWhile_append_rtakeWhile (p := (· = 47)) (l := m.virtual_path.str.val)]
  rw [fold, List.map_append, ← fold, ← fold]
  exact congrArg (fold (mountRoot m) ++ ·) hsame

theorem inOwnSpace_iff : InOwnSpace uri m ↔ ∃ t, fold uri.val = fold (mountRoot m) ++ t ∧ (t = [] ∨ t.head? = some 47) := by
  have hslash : fold (mountRoot m ++ [47]) = fold (mountRoot m) ++ [47] := List.map_append
  unfold InOwnSpace
  rw [hslash]
  constructor
  · rintro (h | ⟨t, h⟩)
    · exact ⟨[], by rw [h, List.append_nil], .inl rfl⟩
    · exact ⟨47 :: t, by rw [← h, List.append_assoc, List.singleton_append], .inr rfl⟩
  · rintro ⟨t, h, rfl | hhead⟩
    · exact .inl (h.trans (List.append_nil _))
    · obtain ⟨t', rfl⟩ := List.head?_eq_some_iff.mp hhead
      exact .inr ⟨t', by rw [h, List.append_assoc, List.singleton_append]⟩

theorem covers_iff_root : covers uri m = true ↔ fold (mountRoot m) ++ mountSlashes m <+: fold uri.val := by
  rw [covers_iff, fold_path]

theorem CutsSegment.covers (h : CutsSegment uri m) : covers uri m = true := by
  obtain ⟨t, ht, hno, -, -⟩ := h
  rw [covers_iff_root, ht, hno, List.append_nil]
  exact List.prefix_append _ _

theorem OverSlashed.own (h : OverSlashed uri m) : InOwnSpace uri m := by
  obtain ⟨t, ht, hrest, -⟩ := h
  exact inOwnSpace_iff.mpr ⟨t, ht, hrest⟩

/-- What begins the URI has it in its space, or cuts a segment of it. -/
theorem own_or_cuts (h : Handler.covers uri m = true) : InOwnSpace uri m ∨ CutsSegment uri m := by
  obtain ⟨t, ht⟩ := covers_iff_root.mp h
  rw [List.append_assoc] at ht
  cases hs : mountSlashes m with
  | nil =>
    rw [hs, List.nil_append] at ht
    by_cases hrest : t = [] ∨ t.head? = some 47
    · exact .inl (inOwnSpace_iff.mpr ⟨t, ht.symm, hrest⟩)
    · exact .inr ⟨t, ht.symm, hs, not_or.mp hrest⟩
  | cons x xs =>
    have hslash : x = 47 := eq_slash (m := m) (by rw [hs]; exact List.mem_cons_self)
    refine .inl (inOwnSpace_iff.mpr ⟨_, ht.symm, .inr ?_⟩)
    rw [hs, hslash]
    rfl

/-- A mount that has the URI in its space begins it, or is over-slashed. -/
theorem covers_or_over (h : InOwnSpace uri m) : Handler.covers uri m = true ∨ OverSlashed uri m := by
  obtain ⟨t, ht, hrest⟩ := inOwnSpace_iff.mp h
  by_cases hs : mountSlashes m <+: t
  · refine .inl (covers_iff_root.mpr ?_)
    rw [ht]
    exact (List.prefix_append_right_inj _).mpr hs
  · exact .inr ⟨t, ht, hrest, hs⟩

end

/-! ## The two agree -/

section
variable (uri : CString) (aliases : AprHash Alias)

/-- What is selected is the host of a covering mount. -/
theorem selected_covering {items : AprHash Alias} (hp : items.Perm aliases) {host : HostPtr}
    (h : selected uri items = some host) : ∃ e, Covering uri aliases e ∧ e.2.host = host := by
  rw [selected_eq_find, Option.map_eq_some_iff] at h
  obtain ⟨e, hfind, hhost⟩ := h
  have hcov := List.find?_some hfind
  exact ⟨e, ⟨hp.mem_iff.mp (List.mem_of_find?_eq_some hfind), hcov⟩, hhost⟩

/-- A covering mount is the first one of some order. -/
theorem selected_first {e : HashKey × Alias} (he : Covering uri aliases e) :
    ∃ items : AprHash Alias, items.Perm aliases ∧ selected uri items = some e.2.host := by
  obtain ⟨s, t, rfl⟩ := List.append_of_mem he.1
  refine ⟨e :: (s ++ t), List.perm_middle.symm, ?_⟩
  rw [selected_eq_find]
  simp only [List.find?_cons, he.2, Option.map_some]

theorem selected_isSome {items : AprHash Alias} (hp : items.Perm aliases) :
    (selected uri items).isSome ↔ ∃ e, Covering uri aliases e := by
  constructor
  · intro h
    obtain ⟨host, hhost⟩ := Option.isSome_iff_exists.mp h
    obtain ⟨e, he, -⟩ := selected_covering uri aliases hp hhost
    exact ⟨e, he⟩
  · intro h
    cases hsel : selected uri items with
    | some host => rfl
    | none =>
      obtain ⟨e, hmem, hcov⟩ := h
      rw [selected_eq_find, Option.map_eq_none_iff, List.find?_eq_none] at hsel
      exact absurd hcov (hsel e (hp.mem_iff.mpr hmem))

end

/-- For every table and every request past the gates: mounts serve their own
space exactly when the spellings fit the URI. -/
theorem own_space_iff (d : Dirconf) (g : HostTable) (aliases : AprHash Alias) (env : Env) (r : RequestRec)
    (uri : CString) (h : Admitted d env r uri) :
    ServesOwnSpace d g aliases env r uri ↔ SpellingsFit g aliases uri := by
  unfold ServesOwnSpace
  simp only [handler_reaches h, Option.isSome_map, Option.map_eq_some_iff]
  constructor
  · intro hserve
    refine ⟨fun e he hcuts => ?_, fun e he hover => ?_⟩
    · obtain ⟨items, hp, hsel⟩ := selected_first uri aliases ⟨he, hcuts.covers⟩
      exact (hserve items hp).2 _ ⟨_, hsel, rfl⟩
    · have hsome := (hserve aliases (List.Perm.refl _)).1.mpr ⟨e, he, hover.own⟩
      exact (selected_isSome uri aliases (List.Perm.refl _)).mp hsome
  · intro hfit items hp
    -- whatever begins the URI leads to the host of a mount with the URI in its space
    have htaken : ∀ e, Covering uri aliases e →
        ∃ e' ∈ aliases, InOwnSpace uri e'.2 ∧ hostKey g e'.2.host = hostKey g e.2.host := by
      rintro e ⟨he, hcov⟩
      rcases own_or_cuts hcov with hown | hcuts
      · exact ⟨e, he, hown, rfl⟩
      · exact hfit.taken e he hcuts
    rw [selected_isSome uri aliases hp]
    refine ⟨⟨?_, ?_⟩, ?_⟩
    · rintro ⟨e, he⟩
      obtain ⟨e', hmem, hown, -⟩ := htaken e he
      exact ⟨e', hmem, hown⟩
    · rintro ⟨e, he, hown⟩
      rcases covers_or_over hown with hcov | hover
      · exact ⟨e, he, hcov⟩
      · exact hfit.missed e he hover
    · rintro k ⟨host, hsel, hkey⟩
      obtain ⟨e, he, rfl⟩ := selected_covering uri aliases hp hsel
      obtain ⟨e', hmem, hown, hsame⟩ := htaken e he
      exact ⟨e', hmem, hown, hsame.trans hkey⟩

/-! ## Two sites -/

/-- A request for a file, with every file type enabled. -/
def siteRequest (uri : CString) : RequestRec :=
  ⟨some (cstr (lit "asp.net")), some uri, cstr (lit "C:/web/x"), .APR_REG, .AP_REQ_DEFAULT_PATH_INFO, none⟩

def siteDirconf : Dirconf := ⟨ASPNET_FILES ||| ASPNET_DIRS ||| ASPNET_VIRTUAL⟩

/-- Every call ends with `OK`. -/
def siteEnv : Env := ⟨0, 0, fun _ => .status 200⟩

theorem siteRequest_admitted (uri : CString) (h : uri.val.head? = some 47) :
    Admitted siteDirconf siteEnv (siteRequest uri) uri where
  absolute := ⟨show some (cstr (lit "asp.net")).val = _ by decide +kernel, rfl, h⟩
  type := by
    unfold fileTypeGate siteRequest
    dsimp only
    rw [if_neg (by decide)]
  info := rfl
  com := by decide

/-- `AspNetMount /App` -/
def appTable : AprHash Alias := [((⟨.conf 0, lit "/App", 0⟩, 4), ⟨4, ⟨.process, lit "/App", 0⟩, 0, by decide⟩)]

/-- `AspNetMount /app/` -/
def slashMount : Alias := ⟨5, ⟨.process, lit "/app/", 0⟩, 0, by decide⟩

theorem own_space_app :
    ServesOwnSpace siteDirconf ⟨[], []⟩ appTable siteEnv (siteRequest (cstr (lit "/app/x.aspx")))
      (cstr (lit "/app/x.aspx")) := by
  refine (own_space_iff siteDirconf ⟨[], []⟩ appTable siteEnv _ (cstr (lit "/app/x.aspx"))
    (siteRequest_admitted _ (by decide +kernel))).mpr ⟨?_, ?_⟩
  · intro e he _
    rw [List.mem_singleton.mp he]
    exact ⟨_, List.mem_singleton_self _, by decide +kernel, rfl⟩
  · intro _ _ _
    exact ⟨_, List.mem_singleton_self _, by decide +kernel⟩

/-- The mount of `/App` takes `/application`. -/
theorem own_space_missed : ¬ ∀ (d : Dirconf) (g : HostTable) (aliases : AprHash Alias) (env : Env) (r : RequestRec)
    (uri : CString), Ascii uri.val → Admitted d env r uri → ServesOwnSpace d g aliases env r uri := by
  intro h
  obtain ⟨hserve, -⟩ := h siteDirconf ⟨[], []⟩ appTable siteEnv (siteRequest (cstr (lit "/application")))
    (cstr (lit "/application")) (by decide +kernel) (siteRequest_admitted _ (by decide +kernel)) appTable
    (List.Perm.refl _)
  revert hserve
  decide +kernel

/-- The mount of `/app/` takes what is below `/app`, but not `/app`. -/
example : covers (cstr (lit "/app/x")) slashMount = true ∧ covers (cstr (lit "/app")) slashMount = false ∧
    InOwnSpace (cstr (lit "/app")) slashMount := by decide +kernel

end ModAspNet.L3.Coverage
