import ModAspNet.L1Text.Decoding
import ModAspNet.L5Worker.Boundary
import ModAspNet.L6Process.Membership

/-!
# One text for one byte string

The bytes of a path become text on three ways: `asp_net_post_config` makes the
mount path with `MultiByteToWideChar` and `CP_UTF8`, the worker makes the URI
with `gcnew String(rr->uri)`, which is the ANSI code page, and the file name with
`utf8_encoding` ("rr->filename is utf-8 encoded").

* `mapPath_begins`: a path that begins with the mount path is inside the host.
* `one_text_iff`: the three agree on a byte string exactly when it is ASCII, on
  every single-byte code page and every double-byte one that is apart from UTF-8.
-/
namespace ModAspNet.L6.OneText

open ModAspNet.L1.CStr ModAspNet.L1.Managed ModAspNet.L1.Decoding
open ModAspNet.L5.Paths ModAspNet.L5.Boundary
open ModAspNet.L6.Membership
open ModAspNet.L6.Passes (Interop)

/-! ## The conversions -/

/-- `MultiByteToWideChar` with `CP_UTF8`, on well-formed bytes. -/
def DecodesUtf8 (i : Interop) : Prop :=
  ∀ (path : CString) (cs : List Char), encode cs = path.val → i.multiByteToWideChar path = some (utf16 cs)

theorem DecodesUtf8.keepsAscii {i : Interop} (hi : DecodesUtf8 i) : KeepsAscii i := by
  intro path h
  obtain ⟨cs, he, ht⟩ := encode_of_ascii h
  rw [hi path cs he, ht]

theorem widen_ascii {i : Interop} (hi : DecodesUtf8 i) {path : CString} (h : Ascii path.val) :
    i.widen path = asciiText path.val := by
  unfold Passes.Interop.widen
  rw [hi.keepsAscii path h]

/-- The worker's `uri`, which `GetUriPath` returns; mirrors Apache.Web/WorkerRequest.cpp:55 -/
def workerUri (p : AnsiPage) (uri : CString) : WString := p.text uri.val

/-- The texts made of `b` agree: as a mount path with the URIs that begin with
it, and as what a URI and a file name have in common behind ASCII beginnings.
So what begins with the mount path is inside the host. -/
structure TextsAgree (p : AnsiPage) (i : Interop) (d : Utf8Decoder) (b : CString) : Prop where
  mount : ∀ uri : CString, b.val <+: uri.val → i.widen b <+: workerUri p uri
  shared : ∀ (x y : Bytes) (uri filename : CString), Ascii x → Ascii y → uri.val = x ++ b.val →
    filename.val = y ++ b.val → ∃ common, workerUri p uri = asciiText x ++ common ∧
      workerFilename d.decode (some filename) = replaceSlashes (asciiText y ++ common)
  inside : ∀ (c : Culture) (physicalPath : WString) (uri : CString), b.val <+: uri.val →
    ∃ m, mapPath c (createdHost (i.widen b) physicalPath) (some (workerUri p uri)) = .ok m ∧ m.path ≠ none

/-! ## Inside the host -/

theorem relative_of_not_absolute {u : UInt16} {t : WString} (h : ¬ Absolute (u :: t)) : Relative (u :: t) := by
  unfold Absolute replaceBackslashes at h
  rw [List.map_cons, List.head?_cons, Option.some.injEq] at h
  refine ⟨u, t, rfl, fun hs => h ?_, fun hb => h (if_pos hb)⟩
  rw [if_neg (by rw [hs]; decide), hs]

theorem mapPath_begins (c : Culture) (physicalPath : WString) {V T : WString} (h : V <+: T) :
    ∃ m, mapPath c (createdHost V physicalPath) (some T) = .ok m ∧ m.path ≠ none := by
  have hbegins : (createdHost V physicalPath).virtualPath <+: replaceBackslashes T :=
    (dropTrailing_begins 47 _).trans (h.map _)
  cases T with
  | nil => exact ⟨_, rfl, nofun⟩
  | cons u t =>
    by_cases habs : Absolute (u :: t)
    · obtain ⟨rest, hrest⟩ := hbegins
      exact ⟨_, mapPath_agreeing habs hrest.symm rfl, nofun⟩
    · have hlen : (createdHost V physicalPath).virtualPath.length ≤ (u :: t).length := by
        rw [← replaceBackslashes_length (u :: t)]
        exact hbegins.length_le
      refine ⟨_, (mapPath_relative c _ (relative_of_not_absolute habs)).trans (if_pos hlen), nofun⟩

/-! ## ASCII and nothing else -/

theorem textsAgree_of_ascii (p : AnsiPage) {i : Interop} (hi : DecodesUtf8 i) (d : Utf8Decoder) {b : CString}
    (h : Ascii b.val) : TextsAgree p i d b := by
  have hmount : ∀ uri : CString, b.val <+: uri.val → i.widen b <+: workerUri p uri := by
    rintro uri ⟨rest, hrest⟩
    unfold workerUri
    rw [widen_ascii hi h, ← hrest, p.text_append h]
    exact List.prefix_append _ _
  refine ⟨hmount, fun x y uri filename hx hy huri hfile => ?_, fun c physicalPath uri hb => ?_⟩
  · refine ⟨asciiText b.val, ?_, ?_⟩
    · unfold workerUri
      rw [huri, p.text_append hx, p.text_ascii h]
    · have hboth : Ascii (y ++ b.val) := fun z hz => (List.mem_append.mp hz).elim (hy z) (h z)
      show replaceSlashes (d.decode filename.val) = _
      rw [hfile, decode_ascii d hboth, asciiText, List.map_append]
      rfl
  · exact mapPath_begins c physicalPath (hmount uri hb)

/-- For every byte string and every code page that has only single bytes or is
apart from UTF-8: its texts agree exactly when it is ASCII. -/
theorem one_text_iff (p : AnsiPage) (hp : p.SingleByte ∨ p.Apart) (i : Interop) (hi : DecodesUtf8 i) (d : Utf8Decoder)
    (b : CString) : TextsAgree p i d b ↔ Ascii b.val := by
  constructor
  · intro h
    obtain ⟨common, huri, hfile⟩ := h.shared [] [] b b (List.forall_mem_nil _) (List.forall_mem_nil _) rfl rfl
    refine AnsiPage.ascii_of_text_eq hp d ?_
    have htext : p.text b.val = common := huri
    have hdecode : replaceSlashes (d.decode b.val) = replaceSlashes common := hfile
    rw [htext, hdecode]
  · exact fun h => textsAgree_of_ascii p hi d h

/-! ## Windows-1252 -/

/-- Both converters decode UTF-8. -/
def utf8Interop : Interop := ⟨fun path => some (strictDecoder.decode path.val), fun path => windows1252.text path.val, fun _ => .other⟩

theorem utf8Interop_decodes : DecodesUtf8 utf8Interop := by
  intro path cs he
  exact congrArg some (by rw [← he, strictDecoder.wellFormed])

theorem one_text_app : TextsAgree windows1252 utf8Interop strictDecoder (cstr (lit "/app")) :=
  (one_text_iff windows1252 (.inl fun _ => rfl) utf8Interop utf8Interop_decodes strictDecoder (cstr (lit "/app"))).mpr
    (by decide +kernel)

/-- `/é` in UTF-8 -/
def accented : CString := ⟨[47, 0xC3, 0xA9], by decide⟩

/-- The mount path is `/é`, and the URI with the same bytes is `/Ã©`. -/
theorem accented_mount_missed : ¬ ∀ (p : AnsiPage) (i : Interop) (d : Utf8Decoder) (b : CString),
    p.SingleByte ∨ p.Apart → DecodesUtf8 i → TextsAgree p i d b := by
  intro h
  have hbegins := (h windows1252 utf8Interop strictDecoder accented (.inl fun _ => rfl) utf8Interop_decodes).mount
    accented (List.prefix_refl _)
  have hwiden : utf8Interop.widen accented = [47, 0xE9] := strictDecoder.wellFormed ['/', 'é']
  rw [hwiden] at hbegins
  revert hbegins
  decide +kernel

/-- `MapPath` takes it for a path outside the host. -/
example : (mapPath asciiCulture (createdHost [47, 0xE9] (wlit "C:/web")) (some (workerUri windows1252 accented))).map
    Mapping.path = .ok none := by decide +kernel

end ModAspNet.L6.OneText
