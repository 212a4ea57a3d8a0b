import ModAspNet.L1Text.Decoding
import ModAspNet.L6Process.Passes

/-!
# Mount paths that are not UTF-8

"Treat AspNetMount paths as utf-8 strings, fail over to default _bstr_t
multibyte conversion if unconvertable": `asp_net_post_config` takes the fallback
when `MultiByteToWideChar` returns 0. It calls it with `CP_UTF8` and flags 0, and
without `MB_ERR_INVALID_CHARS` nothing is unconvertable: bytes that are not well
formed are replaced or dropped (`LenientDecoder`).

* `converted`: the fallback is taken for no path.
* `callCreateHost_handed`: `CreateHost` gets the two strings of `handed`.
* `falls_back_iff`: the paths of the hosts are handed over as they should be
  exactly when all of them are well formed.
-/
namespace ModAspNet.L6.Fallback

open ModAspNet.L1.CStr ModAspNet.L1.Managed ModAspNet.L1.Decoding
open ModAspNet.L2.Mount ModAspNet.L6.Passes
open ModAspNet.L4.HostFactory (Exn Choice Factory createHost exec enter)

/-! ## The conversion -/

/-- The characters written to a buffer of `cchWideChar`, and how many; 0 when
they do not fit. The NUL of `str` is converted with it. -/
def multiByteToWideChar (d : LenientDecoder) (str : CString) (cchWideChar : Nat) : WString × Nat :=
  let wide := d.decode str.val ++ [0]
  if wide.length ≤ cchWideChar then (wide, wide.length) else (wide.take cchWideChar, 0)

/-- The string at the head of a buffer of wide characters. -/
def wcs (path : WString) : WString := path.takeWhile (· ≠ 0)

/-- `inlen` -/
def bufferLen (str : CString) : Nat := str.length + 1

/-- What the system converts with; mirrors mod/mod_aspdotnet.cpp:797-818 -/
def interop (d : LenientDecoder) (p : AnsiPage) (caught : Option Exn → Caught) : Interop where
  multiByteToWideChar str :=
    let (path, outlen) := multiByteToWideChar d str (bufferLen str)
    if outlen ≠ 0 then some (wcs path) else none
  bstr str := p.text str.val
  caught := caught

/-- The two strings made for a record. -/
def handed (c : Interop) (r : HostConf) : WString × WString :=
  (c.widen r.virtual_path.str, c.widen r.physical_path.str)

theorem callCreateHost_handed (c : Interop) (server : Nat) (r : HostConf) (choices : List Choice) (f : Factory) :
    callCreateHost c server r choices f =
      (createHost (handed c r).1 (handed c r).2 server).solo exec 0 choices
        (enter 0 (.createHost (handed c r).1 (handed c r).2 server) f) := rfl

/-! ## The property -/

/-- The UTF-8 decoding of well-formed bytes, and the text of the code page of
others. -/
def expected (p : AnsiPage) (str : CString) : WString :=
  match str.val.toByteArray.utf8Decode? with
  | some cs => utf16 cs.toList
  | none => p.text str.val

/-- The strings of a record. -/
def strings (r : HostConf) : List CString := [r.virtual_path.str, r.physical_path.str]

/-- The paths of `hosts` are handed to `CreateHost` as expected, through buffers
large enough, and two of them are one string only if they should be. -/
structure FallsBack (d : LenientDecoder) (p : AnsiPage) (caught : Option Exn → Caught) (hosts : List HostConf) :
    Prop where
  handed : ∀ r ∈ hosts,
    handed (interop d p caught) r = (expected p r.virtual_path.str, expected p r.physical_path.str)
  inside : ∀ r ∈ hosts, ∀ str ∈ strings r, (multiByteToWideChar d str (bufferLen str)).1.length ≤ bufferLen str
  apart : ∀ r ∈ hosts, ∀ r' ∈ hosts, ∀ str ∈ strings r, ∀ str' ∈ strings r',
    (interop d p caught).widen str = (interop d p caught).widen str' → expected p str = expected p str'

/-! ## One path -/

section
variable (d : LenientDecoder) (p : AnsiPage) (caught : Option Exn → Caught) (str : CString)

/-- The buffer has room for all characters and the NUL. -/
theorem multiByteToWideChar_fits : multiByteToWideChar d str (bufferLen str) =
    (d.decode str.val ++ [0], (d.decode str.val).length + 1) := by
  have hle := d.length_le str.val
  unfold multiByteToWideChar bufferLen CString.length
  dsimp only
  rw [if_pos (by simpa using hle), List.length_append, List.length_singleton]

/-- Whatever the bytes: the decoded text is used. -/
theorem converted : (interop d p caught).widen str = d.decode str.val := by
  have hno := d.nonul str.val str.nonul
  have hall : ∀ u ∈ d.decode str.val, (decide (u ≠ 0)) = true := fun u hu =>
    decide_eq_true fun he => hno (he ▸ hu)
  unfold Interop.widen interop
  dsimp only
  rw [multiByteToWideChar_fits, if_pos (Nat.succ_ne_zero _), wcs, List.takeWhile_append_of_pos hall]
  exact List.append_nil _

theorem expected_of_wellFormed {str : CString} (h : WellFormed str.val) : expected p str = d.decode str.val := by
  obtain ⟨cs, he⟩ := h
  unfold expected
  rw [← he, utf8Decode?_encode, d.wellFormed]

theorem expected_of_malformed {str : CString} (h : ¬ WellFormed str.val) : expected p str = p.text str.val := by
  unfold expected
  rw [(utf8Decode?_eq_none_iff str.val).mpr h]

/-- One path is converted as it should be exactly when it is well formed. -/
theorem converted_iff {d : LenientDecoder} {p : AnsiPage} (hd : d.Replaces ∨ p.Wide) :
    (interop d p caught).widen str = expected p str ↔ WellFormed str.val := by
  rw [converted]
  constructor
  · intro h
    by_contra hbad
    rw [expected_of_malformed p hbad] at h
    exact AnsiPage.text_ne_lenient hd hbad h
  · intro h
    exact (expected_of_wellFormed d p h).symm

end

/-! ## The paths of all hosts -/

/-- For every decoder that replaces, on every code page, and every decoder that
drops, on every code page whose characters of two bytes are not ASCII, and for
every list of hosts: their paths are handed over as they should be exactly when
all of them are well-formed UTF-8. -/
theorem falls_back_iff (d : LenientDecoder) (p : AnsiPage) (hd : d.Replaces ∨ p.Wide) (caught : Option Exn → Caught)
    (hosts : List HostConf) :
    FallsBack d p caught hosts ↔ ∀ r ∈ hosts, ∀ str ∈ strings r, WellFormed str.val := by
  constructor
  · intro h r hr str hstr
    obtain ⟨hv, hph⟩ := Prod.mk.inj (h.handed r hr)
    rcases List.mem_pair.mp hstr with rfl | rfl
    · exact (converted_iff caught _ hd).mp hv
    · exact (converted_iff caught _ hd).mp hph
  · intro h
    have hconv : ∀ r ∈ hosts, ∀ str ∈ strings r, (interop d p caught).widen str = expected p str := fun r hr str hstr =>
      (converted_iff caught str hd).mpr (h r hr str hstr)
    refine ⟨fun r hr => ?_, fun r _ str _ => ?_, fun r hr r' hr' str hstr str' hstr' heq => ?_⟩
    · exact Prod.ext (hconv r hr _ (by simp [strings])) (hconv r hr _ (by simp [strings]))
    · have hle := d.length_le str.val
      rw [multiByteToWideChar_fits]
      simpa [bufferLen, CString.length] using hle
    · rw [← hconv r hr str hstr, ← hconv r' hr' str' hstr', heq]

theorem windows1252_wide : windows1252.Wide := fun _ _ h => by cases h

/-- `C:/web` -/
def root : CString := cstr (lit "C:/web")

/-- `/é` in UTF-8 -/
theorem falls_back_utf8 : FallsBack replacingDecoder windows1252 (fun _ => .other)
    [newHost ⟨[47, 0xC3, 0xA9], by decide⟩ root (-1)] := by
  refine (falls_back_iff replacingDecoder windows1252 (.inr windows1252_wide) _ _).mpr ?_
  intro r hr str hstr
  obtain ⟨hv, hp⟩ := Prod.mk.inj (newHost_paths ⟨[47, 0xC3, 0xA9], by decide⟩ root (-1))
  rw [List.mem_singleton.mp hr] at hstr
  rcases List.mem_pair.mp hstr with rfl | rfl
  · rw [hv]
    exact ⟨['/', 'é'], by decide +kernel⟩
  · rw [hp]
    exact (encode_of_ascii (by decide +kernel)).imp fun _ h => h.1

/-- `/é` in Latin-1 -/
def latin1 : CString := ⟨[47] ++ [0xE9], by decide⟩

/-- It is handed over as `/` and U+FFFD. -/
theorem latin1_mount_replaced : ¬ ∀ (d : LenientDecoder) (p : AnsiPage) (caught : Option Exn → Caught)
    (hosts : List HostConf), d.Replaces ∨ p.Wide → FallsBack d p caught hosts := by
  intro h
  have hbad := (h replacingDecoder windows1252 (fun _ => .other) [newHost latin1 root (-1)] (.inr windows1252_wide)).handed
    _ (List.mem_singleton_self _)
  have hgood := (converted_iff (fun _ => .other) _ (.inr windows1252_wide)).mp (Prod.mk.inj hbad).1
  rw [(Prod.mk.inj (newHost_paths latin1 root (-1))).1] at hgood
  exact malformed_of_lone (by decide) (by decide +kernel) hgood

end ModAspNet.L6.Fallback
