import ModAspNet.L5Worker.Paths

/-!
# Where an application ends

`MapPath` compares as many characters of a path as the virtual path has, and
never looks at the next one: a longer sibling name passes for a path inside.
A relative path is not compared at all, yet it loses as many characters.

* `mapPath_other`, `mapPath_agreeing`: `MapPath` on an absolute path, one
  equation for each answer of the comparison.
* `boundary_exact_iff`: it tells inside from outside exactly when the path is
  not a longer sibling of the virtual path.
* `mapPath_relative`: `MapPath` on a relative path.
* `relative_exact_iff`: it resolves one against the application root exactly
  when the virtual path is empty.
-/
namespace ModAspNet.L5.Boundary

open ModAspNet.L1.CStr ModAspNet.L1.Managed
open ModAspNet.L5.Paths

/-! ## Absolute paths -/

/-- Absolute after turning backslashes into '/'. -/
def Absolute (path : WString) : Prop := (replaceBackslashes path).head? = some 47

instance (path : WString) : Decidable (Absolute path) := inferInstanceAs (Decidable (_ = _))

/-- Without regard to case, the path is `v`, or goes on after it with '/'. -/
def Inside (c : Culture) (v path : WString) : Prop :=
  ∃ start rest, replaceBackslashes path = start ++ rest ∧ c.lower start = c.lower v ∧
    (rest = [] ∨ rest.head? = some 47)

/-- Null for a path outside the virtual path only, and else the physical path or
something below it. -/
def TellsInside (c : Culture) (h : Host) (path : WString) : Prop :=
  ∃ m, mapPath c h (some path) = .ok m ∧ (m.path = none ↔ ¬ Inside c h.virtualPath path) ∧
    ∀ f, m.path = some f → Under h.physicalPath 92 f

/-- The path begins with `v`, but the segment goes on after it. -/
def LongerSibling (c : Culture) (v path : WString) : Prop :=
  ∃ start rest, replaceBackslashes path = start ++ rest ∧ c.lower start = c.lower v ∧
    rest ≠ [] ∧ rest.head? ≠ some 47

theorem lower_length (c : Culture) (s : WString) : (c.lower s).length = s.length := List.length_map _

/-- Two beginnings of one path that agree with `v` are the same. -/
theorem split_unique {c : Culture} {v s s' t t' : WString} (he : s ++ t = s' ++ t') (hs : c.lower s = c.lower v)
    (hs' : c.lower s' = c.lower v) : s = s' ∧ t = t' := by
  have h1 := congrArg List.length hs
  have h2 := congrArg List.length hs'
  rw [lower_length, lower_length] at h1 h2
  exact List.append_inj he (h1.trans h2.symm)

/-- Backslashes are what they were, whichever separators were there. -/
theorem replaceSlashes_back (s : WString) : replaceSlashes (replaceBackslashes s) = replaceSlashes s := by
  unfold replaceSlashes replaceBackslashes
  rw [List.map_map]
  refine List.map_congr_left fun u _ => ?_
  by_cases hb : u = 92
  · rw [hb]; rfl
  · simp [hb]

theorem not_inside_of_sibling {c : Culture} {v path : WString} (h : LongerSibling c v path) : ¬ Inside c v path := by
  obtain ⟨s, t, he, hs, hne, hhead⟩ := h
  rintro ⟨s', t', he', hs', hrest⟩
  obtain ⟨-, rfl⟩ := split_unique (he'.symm.trans he) hs' hs
  exact hrest.elim hne hhead

/-- The comparison fails: null. -/
theorem mapPath_other {c : Culture} {h : Host} {path : WString} (habs : Absolute path)
    (hother : c.lower ((replaceBackslashes path).take h.virtualPath.length) ≠ c.lower h.virtualPath) :
    ∃ log, mapPath c h (some path) = .ok ⟨none, log⟩ := by
  have hcmp : c.compareIgnoreCase ((replaceBackslashes path).take h.virtualPath.length) h.virtualPath ≠ 0 :=
    mt (compareIgnoreCase_eq_zero c _ _).mp hother
  unfold mapPath
  split
  · rename_i hp; cases hp
  · rename_i hp; cases hp; cases habs
  · rename_i p _ hp
    cases hp
    unfold Absolute at habs
    simp only [habs, if_true, hcmp, ne_eq, not_false_eq_true]
    exact ⟨_, rfl⟩

/-- The comparison succeeds: the physical path and the rest, whatever it begins
with. -/
theorem mapPath_agreeing {c : Culture} {h : Host} {path start rest : WString} (habs : Absolute path)
    (he : replaceBackslashes path = start ++ rest) (hs : c.lower start = c.lower h.virtualPath) :
    mapPath c h (some path) = .ok ⟨some (h.physicalPath ++ replaceSlashes rest), []⟩ := by
  have hlen : start.length = h.virtualPath.length := by
    have := congrArg List.length hs
    rwa [lower_length, lower_length] at this
  have hsplit : path = path.take start.length ++ path.drop start.length := (List.take_append_drop _ _).symm
  have htake : replaceBackslashes (path.take start.length) = start := by
    rw [replaceBackslashes, List.map_take, ← replaceBackslashes, he, List.take_left]
  have hdrop : replaceSlashes (path.drop start.length) = replaceSlashes rest := by
    have hrest : rest = replaceBackslashes (path.drop start.length) := by
      rw [replaceBackslashes, List.map_drop, ← replaceBackslashes, he, List.drop_left]
    rw [hrest, replaceSlashes_back]
  have hshort : (path.take start.length).length = h.virtualPath.length := by
    rw [← replaceBackslashes_length, htake, hlen]
  rw [← hdrop]
  conv_lhs => rw [hsplit]
  exact mapPath_absolute c h hshort (by rw [htake, hs]) (by rw [← hsplit]; exact habs)

/-- A path is inside the virtual path, a longer sibling of it, or somewhere else. -/
theorem inside_or_sibling_or_other (c : Culture) (v path : WString) :
    Inside c v path ∨ LongerSibling c v path ∨
      c.lower ((replaceBackslashes path).take v.length) ≠ c.lower v := by
  by_cases hsame : c.lower ((replaceBackslashes path).take v.length) = c.lower v
  · have he := (List.take_append_drop v.length (replaceBackslashes path)).symm
    by_cases hrest : (replaceBackslashes path).drop v.length = [] ∨
        ((replaceBackslashes path).drop v.length).head? = some 47
    · exact .inl ⟨_, _, he, hsame, hrest⟩
    · exact .inr (.inl ⟨_, _, he, hsame, not_or.mp hrest⟩)
  · exact .inr (.inr hsame)

theorem not_inside_of_other {c : Culture} {v path : WString}
    (h : c.lower ((replaceBackslashes path).take v.length) ≠ c.lower v) : ¬ Inside c v path := by
  rintro ⟨s, t, he, hs, -⟩
  have hlen := congrArg List.length hs
  rw [lower_length, lower_length] at hlen
  rw [he, ← hlen, List.take_left] at h
  exact h hs

/-- What is left of a path inside, with backslashes, goes on with one. -/
theorem under_rest (p : WString) {rest : WString} (h : rest = [] ∨ rest.head? = some 47) :
    Under p 92 (p ++ replaceSlashes rest) := by
  refine under_iff.mpr ⟨replaceSlashes rest, rfl, ?_⟩
  rcases h with rfl | h
  · exact .inl rfl
  · refine .inr ?_
    rw [replaceSlashes, List.head?_map, h]
    rfl

/-- For every two paths given to `Configure` and every absolute path: `MapPath`
tells inside from outside exactly when the path is no longer sibling. -/
theorem boundary_exact_iff (c : Culture) (VirtualPath PhysicalPath path : WString) (habs : Absolute path) :
    TellsInside c (configure VirtualPath PhysicalPath) path ↔
      ¬ LongerSibling c (configure VirtualPath PhysicalPath).virtualPath path := by
  constructor
  · rintro ⟨m, hm, hnull, -⟩ hsib
    obtain ⟨s, t, he, hs, -⟩ := id hsib
    rw [mapPath_agreeing habs he hs, Except.ok.injEq] at hm
    have := hnull.mpr (not_inside_of_sibling hsib)
    rw [← hm] at this
    cases this
  · intro hsib
    rcases inside_or_sibling_or_other c (configure VirtualPath PhysicalPath).virtualPath path with hin | hs | hother
    · obtain ⟨s, t, he, hs, hrest⟩ := id hin
      refine ⟨_, mapPath_agreeing habs he hs, by simp [hin], fun f hf => ?_⟩
      rw [← Option.some.inj hf]
      exact under_rest _ hrest
    · exact absurd hs hsib
    · obtain ⟨log, hlog⟩ := mapPath_other habs hother
      refine ⟨_, hlog, by simp [not_inside_of_other hother], fun f hf => ?_⟩
      cases hf

/-- The application at `/app`, and another at `/application` beside it. -/
theorem boundary_exact_app :
    TellsInside asciiCulture (configure (wlit "/app") (wlit "C:/web")) (wlit "/APP\\a") ∧
    TellsInside asciiCulture (configure (wlit "/app") (wlit "C:/web")) (wlit "/app") := by
  refine ⟨(boundary_exact_iff asciiCulture (wlit "/app") (wlit "C:/web") (wlit "/APP\\a") (by decide)).mpr ?_,
    (boundary_exact_iff asciiCulture (wlit "/app") (wlit "C:/web") (wlit "/app") (by decide)).mpr ?_⟩
  · exact fun h => not_inside_of_sibling h ⟨wlit "/APP", wlit "/a", by decide, by decide, .inr (by decide)⟩
  · exact fun h => not_inside_of_sibling h ⟨wlit "/app", [], by decide, by decide, .inl rfl⟩

/-- Under `/app`, `MapPath` takes `/application` for a path inside, and names a
directory beside that of the host. -/
theorem sibling_mapped : ¬ ∀ (c : Culture) (VirtualPath PhysicalPath path : WString), Absolute path →
    TellsInside c (configure VirtualPath PhysicalPath) path := by
  intro h
  obtain ⟨m, hm, -, hunder⟩ := h asciiCulture (wlit "/app") (wlit "C:/web") (wlit "/application") (by decide)
  have hmap : mapPath asciiCulture (configure (wlit "/app") (wlit "C:/web")) (some (wlit "/application")) =
      .ok ⟨some (wlit "C:\\weblication"), []⟩ := by decide +kernel
  rw [hmap, Except.ok.injEq] at hm
  have := hunder (wlit "C:\\weblication") (by rw [← hm])
  revert this
  unfold Under
  decide +kernel

/-! ## Relative paths -/

/-- Not empty, and the first character is no separator. -/
def Relative (r : WString) : Prop := ∃ u t, r = u :: t ∧ u ≠ 47 ∧ u ≠ 92

/-- The path below the application root, and so what the same path written out
from the virtual path is mapped to. -/
def ResolvesAtRoot (c : Culture) (h : Host) (r : WString) : Prop :=
  mapPath c h (some r) = .ok ⟨some (h.physicalPath ++ [92] ++ replaceSlashes r), []⟩ ∧
    mapPath c h (some r) = mapPath c h (some (h.virtualPath ++ [47] ++ r))

/-- A relative path loses its beginning, and one shorter than the virtual path
raises. -/
theorem mapPath_relative (c : Culture) (h : Host) {r : WString} (hr : Relative r) :
    mapPath c h (some r) =
      if h.virtualPath.length ≤ r.length then
        .ok ⟨some (h.physicalPath ++ [92] ++ (replaceSlashes r).drop h.virtualPath.length), []⟩
      else .error .ArgumentOutOfRangeException := by
  obtain ⟨u, t, rfl, hslash, hback⟩ := hr
  have hrel : (replaceBackslashes (u :: t)).head? ≠ some 47 := by
    rw [replaceBackslashes, List.map_cons, List.head?_cons, if_neg hback]
    simpa using hslash
  unfold mapPath
  split
  · rename_i hp; cases hp
  · rename_i hp; cases hp
  · rename_i p _ hp
    cases hp
    simp only [hrel, if_false, substring, replaceSlashes_length]
    split <;> rfl

/-- For every two paths given to `Configure` and every relative path: `MapPath`
resolves it against the application root exactly when the virtual path is
empty. -/
theorem relative_exact_iff (c : Culture) (VirtualPath PhysicalPath r : WString) (hr : Relative r) :
    ResolvesAtRoot c (configure VirtualPath PhysicalPath) r ↔ (configure VirtualPath PhysicalPath).virtualPath = [] := by
  generalize hh : configure VirtualPath PhysicalPath = h
  unfold ResolvesAtRoot
  rw [mapPath_relative c h hr]
  constructor
  · rintro ⟨hroot, -⟩
    split at hroot
    · rename_i hle
      -- nothing was cut off
      have hpath := congrArg List.length (Option.some.inj (congrArg Mapping.path (Except.ok.inj hroot)))
      simp only [List.length_append, List.length_drop, replaceSlashes_length] at hpath
      exact List.length_eq_zero_iff.mp (by omega)
    · cases hroot
  · intro hv
    rw [hv, List.length_nil, if_pos (Nat.zero_le _), List.drop_zero]
    refine ⟨rfl, ?_⟩
    have habs : Absolute ([] ++ [47] ++ r) := rfl
    have he : replaceBackslashes ([] ++ [47] ++ r) = [] ++ (replaceBackslashes [47] ++ replaceBackslashes r) := by
      rw [List.append_assoc, replaceBackslashes_append, replaceBackslashes_append]; rfl
    rw [mapPath_agreeing habs he (by rw [hv]), replaceSlashes_append, replaceSlashes_back, replaceSlashes_back,
      ← List.append_assoc]
    rfl

/-- The application at the root. -/
theorem relative_exact_root :
    ResolvesAtRoot asciiCulture (configure (wlit "/") (wlit "C:/web")) (wlit "bin/a.dll") :=
  (relative_exact_iff asciiCulture (wlit "/") (wlit "C:/web") (wlit "bin/a.dll")
    ⟨98, wlit "in/a.dll", by decide, by decide, by decide⟩).mpr (by decide)

/-- Under `/app`, `bin/a.dll` is cut to `a.dll`. -/
theorem relative_cut : ¬ ∀ (c : Culture) (VirtualPath PhysicalPath r : WString), Relative r →
    ResolvesAtRoot c (configure VirtualPath PhysicalPath) r := by
  intro h
  obtain ⟨hroot, -⟩ := h asciiCulture (wlit "/app") (wlit "C:/web") (wlit "bin/a.dll")
    ⟨98, wlit "in/a.dll", by decide, by decide, by decide⟩
  revert hroot
  decide +kernel

end ModAspNet.L5.Boundary
