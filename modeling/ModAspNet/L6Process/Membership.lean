import ModAspNet.L5Worker.Paths
import ModAspNet.L6Process.Passes

/-!
# One idea of membership

The native handler picks a mount with `strncasecmp` on the mount path as it
was written; the managed host of that mount asks again, with `MapPath`, on the
path that `CreateHost` and `Configure` made of it: converted to UTF-16, with
one kind of separator and without a trailing one.

* `lower_agrees`: bytes that `strncasecmp` holds to be equal give code units
  that `MapPath` holds to be equal.
* `member_of_covers`: a URI the handler accepts is inside the host.
-/
namespace ModAspNet.L6.Membership

open ModAspNet.L1.CStr ModAspNet.L1.Managed ModAspNet.L2.Mount ModAspNet.L3.Handler
open ModAspNet.L5.Paths
open ModAspNet.L6.Passes (Interop)

/-! ## From bytes to code units -/

/-- `MultiByteToWideChar` takes ASCII bytes for what they are. -/
def KeepsAscii (i : Interop) : Prop :=
  ∀ path : CString, Ascii path.val → i.multiByteToWideChar path = some (asciiText path.val)

/-- The host `CreateHost` connects for a mount: it replaces the slashes of the
physical path, and `ConnectHost` hands both paths to `Configure`.
mirrors Apache.Web/HostFactory.h:170-181,134-137 -/
def createdHost (virtualPath physicalPath : WString) : Host := configure virtualPath (replaceSlashes physicalPath)

/-- What `MapPath` compares of a code unit: one separator, in lower case. -/
def compared (c : Culture) (u : UInt16) : UInt16 := c.toLower (if u = 92 then 47 else u)

/-- The backslash is no letter in lower case. -/
theorem tolower_eq_backslash {x : UInt8} : tolower x = 92 ↔ x = 92 := by
  unfold tolower
  split
  · rename_i h
    have h1 := UInt8.le_iff_toNat_le.mp h.1
    have h2 := UInt8.le_iff_toNat_le.mp h.2
    simp only [← UInt8.toNat_inj, UInt8.toNat_add] at h1 h2 ⊢
    simp only [UInt8.reduceToNat, Nat.reducePow] at h1 h2 ⊢
    omega
  · rfl

/-- What `MapPath` compares of an ASCII byte depends on the folded byte only. -/
theorem compared_toUInt16 (c : Culture) {x y : UInt8} (hx : x < 128) (h : tolower x = tolower y) :
    compared c x.toUInt16 = compared c y.toUInt16 := by
  have hy : y < 128 := tolower_lt.mp (h ▸ tolower_lt.mpr hx)
  have hsep : ∀ z : UInt8, z.toUInt16 = 92 ↔ z = 92 := by
    intro z
    rw [← UInt16.toNat_inj, ← UInt8.toNat_inj, UInt8.toNat_toUInt16]
    rfl
  unfold compared
  by_cases hb : x = 92
  · have hyb : y = 92 := tolower_eq_backslash.mp (h ▸ tolower_eq_backslash.mpr hb)
    rw [hb, hyb]
  · have hyb : y ≠ 92 := fun e => hb (tolower_eq_backslash.mp (h.trans (tolower_eq_backslash.mpr e)))
    rw [if_neg (mt (hsep x).mp hb), if_neg (mt (hsep y).mp hyb), toLower_toUInt16 c hx, toLower_toUInt16 c hy, h]

theorem lower_replaceBackslashes (c : Culture) (s : WString) :
    c.lower (replaceBackslashes s) = s.map (compared c) := List.map_map

theorem lower_take (c : Culture) (n : Nat) (s : WString) : c.lower (s.take n) = (c.lower s).take n := List.map_take

theorem replaceBackslashes_take (n : Nat) (s : WString) :
    replaceBackslashes (s.take n) = (replaceBackslashes s).take n := List.map_take

/-- Bytes that are equal for `strncasecmp` give code units that are equal for
`MapPath`. -/
theorem lower_agrees (c : Culture) : ∀ {a b : Bytes}, Ascii b → fold a = fold b →
    c.lower (replaceBackslashes (asciiText a)) = c.lower (replaceBackslashes (asciiText b))
  | [], [], _, _ => rfl
  | x :: a, y :: b, hb, h => by
    obtain ⟨hxy, hab⟩ := List.cons.inj h
    have hrest := lower_agrees c (fun z hz => hb z (List.mem_cons_of_mem _ hz)) hab
    have hhead := compared_toUInt16 c (hb y List.mem_cons_self) hxy.symm
    rw [lower_replaceBackslashes, lower_replaceBackslashes] at hrest ⊢
    unfold asciiText at hrest ⊢
    simp only [List.map_cons, hhead, hrest]

/-! ## The handler and the host -/

theorem ascii_of_fold {a b : Bytes} (h : fold a = fold b) (hb : Ascii b) : Ascii a := by
  intro x hx
  have hmem : tolower x ∈ fold b := h ▸ List.mem_map_of_mem hx
  obtain ⟨y, hy, hxy⟩ := List.mem_map.mp hmem
  exact tolower_lt.mp (hxy ▸ tolower_lt.mpr (hb y hy))

/-- The virtual path of the host is as long as the mount path, or one shorter. -/
theorem createdHost_virtualPath (V P : WString) :
    (createdHost V P).virtualPath = (replaceBackslashes V).take (createdHost V P).virtualPath.length :=
  List.prefix_iff_eq_take.mp (dropTrailing_begins 47 (replaceBackslashes V))

/-- Every mount path, every physical path, every absolute ASCII URI: what the
handler accepts is inside the host, which maps it to its files. -/
theorem member_of_covers (c : Culture) (i : Interop) (hi : KeepsAscii i) (m : Alias) (physicalPath : WString)
    (uri : CString) (hascii : Ascii uri.val) (habs : uri.val.head? = some 47) (hcovers : covers uri m = true) :
    mapPath c (createdHost (i.widen m.virtual_path.str) physicalPath) (some (asciiText uri.val)) =
      .ok ⟨some ((createdHost (i.widen m.virtual_path.str) physicalPath).physicalPath ++
        replaceSlashes ((asciiText uri.val).drop
          (createdHost (i.widen m.virtual_path.str) physicalPath).virtualPath.length)), []⟩ := by
  obtain ⟨t, ht⟩ := (covers_iff uri m).mp hcovers
  generalize hV : m.virtual_path.str = V at ht ⊢
  -- the mount path agrees with as many bytes of the URI
  have hlen : V.val.length ≤ uri.val.length := by
    rw [← fold_length V.val, ← fold_length uri.val, ← ht, List.length_append]; omega
  have hsame : fold V.val = fold (uri.val.take V.val.length) := by
    rw [fold, fold, List.map_take, ← fold, ← fold, ← ht, ← fold_length V.val, List.take_left]
  have hstart : Ascii (uri.val.take V.val.length) := fun x hx => hascii x (List.mem_of_mem_take hx)
  have hwide : i.widen V = asciiText V.val := by
    unfold Passes.Interop.widen
    rw [hi V (ascii_of_fold hsame hstart)]
  rw [hwide]
  have hagree := lower_agrees c hstart hsame
  generalize hh : createdHost (asciiText V.val) physicalPath = h
  have hvpath : h.virtualPath = (replaceBackslashes (asciiText V.val)).take h.virtualPath.length := by
    rw [← hh]; exact createdHost_virtualPath _ _
  have hvlen : h.virtualPath.length ≤ V.val.length := by
    have := congrArg List.length hvpath
    rw [List.length_take, replaceBackslashes_length, asciiText, List.length_map] at this
    omega
  have hsplit : asciiText uri.val =
      (asciiText uri.val).take h.virtualPath.length ++ (asciiText uri.val).drop h.virtualPath.length :=
    (List.take_append_drop _ _).symm
  conv_lhs => rw [hsplit]
  refine mapPath_absolute c h ?_ ?_ ?_
  · rw [List.length_take, asciiText, List.length_map]; omega
  · have hshort : (asciiText (uri.val.take V.val.length)).take h.virtualPath.length =
        (asciiText uri.val).take h.virtualPath.length := by
      rw [asciiText, List.map_take, List.take_take, Nat.min_eq_left hvlen, asciiText]
    rw [← hshort, replaceBackslashes_take, lower_take, ← hagree, ← lower_take, ← hvpath]
  · rw [← hsplit, replaceBackslashes, asciiText, List.head?_map, List.head?_map, habs]
    rfl

/-- `/App\` written with a capital and a backslash, and a URI under it. -/
def shopAlias : Alias := ⟨5, ⟨.process, lit "/App\\", 0⟩, 0, by decide⟩

/-- A converter of ASCII only. -/
def asciiInterop : Interop := ⟨fun path => some (asciiText path.val), fun path => asciiText path.val, fun _ => .other⟩

theorem member_of_covers_shop :
    covers (cstr (lit "/app\\a/b")) shopAlias = true ∧
    mapPath asciiCulture (createdHost (asciiInterop.widen shopAlias.virtual_path.str) (wlit "C:/web"))
        (some (asciiText (cstr (lit "/app\\a/b")).val)) = .ok ⟨some (wlit "C:\\web\\a\\b"), []⟩ :=
  ⟨by decide +kernel, (member_of_covers asciiCulture asciiInterop (fun _ _ => rfl) shopAlias (wlit "C:/web")
    (cstr (lit "/app\\a/b")) (by decide +kernel) (by decide +kernel) (by decide +kernel)).trans (by decide +kernel)⟩

end ModAspNet.L6.Membership
