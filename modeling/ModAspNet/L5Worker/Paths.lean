import ModAspNet.L1Text.Managed

/-!
# Virtual and physical paths

A `Host` serves the URIs under its virtual path with the files under its
physical path. `MapPath` goes from URIs to files, `GetFilePath` from the
request's file back to a URI; they are written apart, one with the replaced
separators of the whole path, the other with those of the rest.

String comparison is ordinal; `MapPath` compares without regard to case.

* `configure_virtualPath`, `configure_physicalPath`: which separators the two
  paths of a host are free of.
* `mapPath_absolute`: what `MapPath` makes of a path inside the host.
* `paths_inverse`: inside a host, each function undoes the other.
-/
namespace ModAspNet.L5.Paths

open ModAspNet.L1.CStr ModAspNet.L1.Managed

/-! ## The functions -/

/-- The two paths of an `Apache.Web.Host`; mirrors Apache.Web/Host.h:42-45 -/
structure Host where
  virtualPath : WString
  physicalPath : WString
  deriving DecidableEq

/-- `if (s->EndsWith(sep)) s = s->Substring(0, s->Length - 1)` -/
def dropTrailing (sep : UInt16) (s : WString) : WString := if s.getLast? = some sep then s.dropLast else s

/-- mirrors Apache.Web/Host.h:75-97 -/
def configure (VirtualPath PhysicalPath : WString) : Host where
  physicalPath := dropTrailing 92 (replaceSlashes PhysicalPath)
  virtualPath := dropTrailing 47 (replaceBackslashes VirtualPath)

inductive Exn where
  | ArgumentOutOfRangeException
  deriving DecidableEq

/-- `s->Substring(start)` -/
def substring (s : WString) (start : Nat) : Except Exn WString :=
  if start ≤ s.length then .ok (s.drop start) else .error .ArgumentOutOfRangeException

/-- What `MapPath` returns, null as `none`, and the texts given to
`LogRequestError`. -/
structure Mapping where
  path : Option WString
  log : List WString
  deriving DecidableEq

/-- mirrors Apache.Web/Host.h:142-187 -/
def mapPath (c : Culture) (h : Host) : Option WString → Except Exn Mapping
  | none => return ⟨h.physicalPath, []⟩
  | some [] => return ⟨h.physicalPath, []⟩
  | some path => do
    let buildpath := replaceSlashes path
    let testpath := replaceBackslashes path
    if testpath.head? = some 47 then
      if c.compareIgnoreCase (testpath.take h.virtualPath.length) h.virtualPath ≠ 0 then
        return ⟨none, [wlit "MapPath: could not map " ++ path ++ wlit " within " ++ h.virtualPath]⟩
      else if testpath.length > h.virtualPath.length then
        let rest ← substring buildpath h.virtualPath.length
        return ⟨some (h.physicalPath ++ rest), []⟩
      else
        return ⟨h.physicalPath, []⟩
    else
      -- the path is relative, and its beginning is cut off all the same
      let rest ← substring buildpath h.virtualPath.length
      return ⟨some (h.physicalPath ++ [92] ++ rest), []⟩

/-- The text of `rr->filename`, decoded with `utf8_encoding`. -/
def requestFilename (decode : Bytes → WString) (filename : Option CString) : WString :=
  match filename with
  | none => decode []
  | some s => decode s.val

/-- The worker's `filename`; mirrors Apache.Web/WorkerRequest.cpp:69-73 -/
def workerFilename (decode : Bytes → WString) (filename : Option CString) : WString :=
  replaceSlashes (requestFilename decode filename)

/-- mirrors Apache.Web/WorkerRequest.cpp:157-172 -/
def getFilePath (h : Host) (filename : WString) : WString :=
  if h.physicalPath.isPrefixOf filename then
    replaceBackslashes (h.virtualPath ++ filename.drop h.physicalPath.length)
  else filename

/-! ## The paths of a host -/

theorem dropTrailing_begins (sep : UInt16) (s : WString) : dropTrailing sep s <+: s := by
  unfold dropTrailing
  split
  · exact List.dropLast_prefix s
  · exact List.prefix_refl s

theorem configure_virtualPath (V P : WString) : 92 ∉ (configure V P).virtualPath :=
  fun h => backslash_notMem V ((dropTrailing_begins _ _).subset h)

theorem configure_physicalPath (V P : WString) : 47 ∉ (configure V P).physicalPath :=
  fun h => slash_notMem P ((dropTrailing_begins _ _).subset h)

/-! ## Inside a host -/

/-- `s` is `root`, or goes on after it with a separator. -/
def Under (root : WString) (sep : UInt16) (s : WString) : Prop := s = root ∨ root ++ [sep] <+: s

/-- `s` is `root` and a rest that is empty or begins with the separator. -/
theorem under_iff {root : WString} {sep : UInt16} {s : WString} :
    Under root sep s ↔ ∃ rest, s = root ++ rest ∧ (rest = [] ∨ rest.head? = some sep) := by
  constructor
  · rintro (rfl | ⟨t, rfl⟩)
    · exact ⟨[], by simp, .inl rfl⟩
    · exact ⟨sep :: t, by simp, .inr rfl⟩
  · rintro ⟨rest, rfl, rfl | hhead⟩
    · exact .inl (List.append_nil root)
    · obtain ⟨t, rfl⟩ : ∃ t, rest = sep :: t := by
        cases rest with
        | nil => cases hhead
        | cons a t => exact ⟨t, by rw [List.head?_cons, Option.some.injEq] at hhead; rw [hhead]⟩
      exact .inr ⟨t, by simp⟩

theorem substring_append (s t : WString) : substring (s ++ t) s.length = .ok t := by
  simp [substring]

/-- An absolute path that agrees with the virtual path, without regard to
case: the physical path and the rest. -/
theorem mapPath_absolute (c : Culture) (h : Host) {start rest : WString} (hlen : start.length = h.virtualPath.length)
    (hsame : c.lower (replaceBackslashes start) = c.lower h.virtualPath)
    (habs : (replaceBackslashes (start ++ rest)).head? = some 47) :
    mapPath c h (some (start ++ rest)) = .ok ⟨some (h.physicalPath ++ replaceSlashes rest), []⟩ := by
  have hne : start ++ rest ≠ [] := by rintro e; rw [e] at habs; cases habs
  have hcmp : c.compareIgnoreCase ((replaceBackslashes (start ++ rest)).take h.virtualPath.length)
      h.virtualPath = 0 := by
    rw [compareIgnoreCase_eq_zero, replaceBackslashes_append, ← hlen, ← replaceBackslashes_length start,
      List.take_left, hsame]
  have hsub : substring (replaceSlashes (start ++ rest)) h.virtualPath.length = .ok (replaceSlashes rest) := by
    rw [replaceSlashes_append, ← hlen, ← replaceSlashes_length start, substring_append]
  unfold mapPath
  split
  · rename_i hp; cases hp
  · rename_i hp; exact absurd (Option.some.inj hp) hne
  · rename_i path _ hp
    cases hp
    simp only [habs, if_true, hcmp, ne_eq, not_true_eq_false, if_false, replaceBackslashes_length,
      List.length_append, hlen, hsub]
    split
    · rfl
    · rename_i hle
      have : rest = [] := List.length_eq_zero_iff.mp (by omega)
      subst this
      simp [replaceSlashes, pure, Except.pure]

theorem mapPath_empty (c : Culture) (h : Host) : mapPath c h (some []) = .ok ⟨some h.physicalPath, []⟩ := rfl

/-- A path inside the host, or the empty one when the virtual path is empty. -/
theorem mapPath_under (c : Culture) {V P : WString} {rest : WString} (hrest : rest = [] ∨ rest.head? = some 47)
    (hv : (configure V P).virtualPath = [] ∨ (configure V P).virtualPath.head? = some 47) :
    mapPath c (configure V P) (some ((configure V P).virtualPath ++ rest)) =
      .ok ⟨some ((configure V P).physicalPath ++ replaceSlashes rest), []⟩ := by
  have hback := replaceBackslashes_of_notMem (configure_virtualPath V P)
  generalize hh : configure V P = h at hv hback ⊢
  rcases hv with hv | hv
  · rcases hrest with rfl | hrest
    · rw [hv]
      simpa [replaceSlashes] using mapPath_empty c h
    · refine mapPath_absolute c h rfl (by rw [hback]) ?_
      rw [hv, List.nil_append, replaceBackslashes, List.head?_map, hrest]
      rfl
  · refine mapPath_absolute c h rfl (by rw [hback]) ?_
    rw [replaceBackslashes_append, hback, List.head?_append, hv]
    rfl

theorem getFilePath_append (h : Host) (rest : WString) :
    getFilePath h (h.physicalPath ++ rest) = replaceBackslashes (h.virtualPath ++ rest) := by
  unfold getFilePath
  rw [if_pos (by simp), List.drop_left]

/-! ## The two directions -/

/-- For every two paths given to `Configure`, every file of the host comes back
from its URI, and every URI of the host from its file. -/
theorem paths_inverse (c : Culture) (decode : Bytes → WString) (VirtualPath PhysicalPath : WString)
    (hv : (configure VirtualPath PhysicalPath).virtualPath = [] ∨
      (configure VirtualPath PhysicalPath).virtualPath.head? = some 47) :
    (∀ filename, Under (configure VirtualPath PhysicalPath).physicalPath 92 (workerFilename decode filename) →
      mapPath c (configure VirtualPath PhysicalPath)
          (some (getFilePath (configure VirtualPath PhysicalPath) (workerFilename decode filename))) =
        .ok ⟨some (workerFilename decode filename), []⟩) ∧
    (∀ u, 92 ∉ u → Under (configure VirtualPath PhysicalPath).virtualPath 47 u →
      ∃ f, mapPath c (configure VirtualPath PhysicalPath) (some u) = .ok ⟨some f, []⟩ ∧
        ∀ filename, requestFilename decode filename = f →
          getFilePath (configure VirtualPath PhysicalPath) (workerFilename decode filename) = u) := by
  have hback := replaceBackslashes_of_notMem (configure_virtualPath VirtualPath PhysicalPath)
  have hphys := configure_physicalPath VirtualPath PhysicalPath
  constructor
  · intro filename hf
    obtain ⟨rest, heq, hrest⟩ := under_iff.mp hf
    -- the rest has backslashes only, so it survives the way through '/'
    have hnone : 47 ∉ rest := by
      intro hm
      have hmem : 47 ∈ workerFilename decode filename := by rw [heq]; exact List.mem_append_right _ hm
      exact slash_notMem _ hmem
    have hrest' : replaceBackslashes rest = [] ∨ (replaceBackslashes rest).head? = some 47 := by
      rcases hrest with rfl | hrest
      · exact .inl rfl
      · refine .inr ?_
        rw [replaceBackslashes, List.head?_map, hrest]; rfl
    rw [heq, getFilePath_append, replaceBackslashes_append, hback, mapPath_under c hrest' hv,
      replaceSlashes_replaceBackslashes hnone]
  · intro u hu hunder
    obtain ⟨rest, heq, hrest⟩ := under_iff.mp hunder
    subst heq
    have hnone : 92 ∉ rest := fun hm => hu (List.mem_append_right _ hm)
    refine ⟨_, mapPath_under c hrest hv, fun filename hf => ?_⟩
    have hsl : 47 ∉ (configure VirtualPath PhysicalPath).physicalPath ++ replaceSlashes rest := by
      rw [List.mem_append]
      rintro (hm | hm)
      · exact hphys hm
      · exact slash_notMem rest hm
    rw [workerFilename, hf, replaceSlashes_of_notMem hsl, getFilePath_append, replaceBackslashes_append, hback,
      replaceBackslashes_replaceSlashes hnone]

/-- The application at `/App` in `C:\web`. -/
def appHost : Host := configure (wlit "/App/") (wlit "C:/web/")

/-- A file of it, and its root. -/
theorem paths_inverse_app :
    mapPath asciiCulture appHost (some (getFilePath appHost (wlit "C:\\web\\a.aspx"))) =
      .ok ⟨some (wlit "C:\\web\\a.aspx"), []⟩ ∧
    ∃ f, mapPath asciiCulture appHost (some (wlit "/App")) = .ok ⟨some f, []⟩ ∧
      ∀ filename, requestFilename (List.map UInt8.toUInt16) filename = f →
        getFilePath appHost (workerFilename (List.map UInt8.toUInt16) filename) = wlit "/App" := by
  obtain ⟨toFile, toUri⟩ := paths_inverse asciiCulture (List.map UInt8.toUInt16) (wlit "/App/") (wlit "C:/web/")
    (by decide)
  exact ⟨toFile (some (cstr (lit "C:/web/a.aspx"))) (.inr (by decide)), toUri (wlit "/App") (by decide) (.inl (by decide))⟩

end ModAspNet.L5.Paths
