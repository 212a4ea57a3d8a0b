import ModAspNet.L1Text.Managed

/-!
# Bytes as text

Three functions of the system make UTF-16 of a C string: `gcnew String(char *)`
by the ANSI code page, and `MultiByteToWideChar` with `CP_UTF8` and the
`String` constructor with `utf8_encoding` by UTF-8. A code page is a table
(`AnsiPage`). A decoder of UTF-8 reads well-formed bytes as the text they encode,
and puts U+FFFD where they are not well formed (`Utf8Decoder`).

* `text_append`: by a code page ASCII bytes are their own text, whatever follows.
* `ascii_of_text_eq`: a code page and UTF-8 read ASCII bytes alike, and no others.
* `text_ne_lenient`: bytes that are not well formed are read differently by a code
  page and by a decoder that replaces or drops some of them (`LenientDecoder`).
-/
namespace ModAspNet.L1.Decoding

open ModAspNet.L1.CStr ModAspNet.L1.Managed

/-! ## Text, and its two encodings -/

/-- UTF-8 -/
def encode (cs : List Char) : Bytes := cs.flatMap String.utf8EncodeChar

/-- One code unit, or a surrogate pair. -/
def units (c : Char) : WString :=
  if c.toNat < 65536 then [UInt16.ofNat c.toNat]
  else [UInt16.ofNat (0xD800 + (c.toNat - 65536) / 1024), UInt16.ofNat (0xDC00 + (c.toNat - 65536) % 1024)]

/-- UTF-16 -/
def utf16 (cs : List Char) : WString := cs.flatMap units

theorem encode_cons (c : Char) (cs : List Char) : encode (c :: cs) = String.utf8EncodeChar c ++ encode cs :=
  List.flatMap_cons

theorem utf16_cons (c : Char) (cs : List Char) : utf16 (c :: cs) = units c ++ utf16 cs := List.flatMap_cons

/-- A decoder of UTF-8 that replaces what it cannot decode. -/
structure Utf8Decoder where
  decode : Bytes → WString
  wellFormed : ∀ cs, decode (encode cs) = utf16 cs
  malformed : ∀ b, (∀ cs, encode cs ≠ b) → 0xFFFD ∈ decode b

theorem toNat_lt_of_char (c : Char) : c.toNat < 1114112 := by
  have := c.valid
  rcases this with h | h <;> simp only [Char.toNat] <;> omega

theorem encodeChar_ascii {c : Char} (h : c.toNat < 128) : String.utf8EncodeChar c = [UInt8.ofNat c.toNat] := by
  unfold String.utf8EncodeChar
  rw [if_pos (show c.val.toNat ≤ 127 from Nat.le_of_lt_succ h)]
  rfl

theorem byte_ascii {c : Char} (h : c.toNat < 128) : UInt8.ofNat c.toNat < 128 := by
  rw [UInt8.lt_iff_toNat_lt, UInt8.toNat_ofNat']
  simp only [UInt8.reduceToNat, Nat.reducePow]
  omega

theorem units_ascii {c : Char} (h : c.toNat < 128) : units c = [UInt16.ofNat c.toNat] := if_pos (by omega)

/-- Beyond ASCII, a character has a first byte that is not ASCII and a second. -/
theorem encodeChar_wide {c : Char} (h : 128 ≤ c.toNat) :
    ∃ x y zs, String.utf8EncodeChar c = x :: y :: zs ∧ ¬ x < 128 ∧ (units c).length < (x :: y :: zs).length := by
  have hwide : ∀ m k : Nat, m + k < 256 → 128 ≤ k → ¬ UInt8.ofNat (m + k) < 128 := by
    intro m k hlt hk
    rw [UInt8.lt_iff_toNat_lt, UInt8.toNat_ofNat']
    simp only [UInt8.reduceToNat, Nat.reducePow]
    omega
  have hv : c.val.toNat = c.toNat := rfl
  have hmax := toNat_lt_of_char c
  unfold String.utf8EncodeChar units
  dsimp only
  rw [hv, if_neg (by omega)]
  split
  · rw [if_pos (by omega)]
    exact ⟨_, _, _, rfl, hwide _ _ (by omega) (by omega), by simp⟩
  · split
    · rw [if_pos (by omega)]
      exact ⟨_, _, _, rfl, hwide _ _ (by omega) (by omega), by simp⟩
    · rw [if_neg (by omega)]
      exact ⟨_, _, _, rfl, hwide _ _ (by omega) (by omega), by simp⟩

theorem utf16_length_le : ∀ cs : List Char, (utf16 cs).length ≤ (encode cs).length
  | [] => Nat.le_refl 0
  | c :: cs => by
    have ih := utf16_length_le cs
    rw [utf16_cons, encode_cons, List.length_append, List.length_append]
    by_cases h : c.toNat < 128
    · rw [encodeChar_ascii h, units_ascii h]
      simpa using ih
    · obtain ⟨x, y, zs, he, -, hlen⟩ := encodeChar_wide (Nat.le_of_not_lt h)
      rw [he]
      omega

/-- Whatever has as many code units as bytes is ASCII. -/
theorem ascii_of_length : ∀ {cs : List Char}, (utf16 cs).length = (encode cs).length → ∀ c ∈ cs, c.toNat < 128
  | [], _, _, hc => absurd hc List.not_mem_nil
  | d :: cs, h, c, hc => by
    have hle := utf16_length_le cs
    have ih : (utf16 cs).length = (encode cs).length → ∀ c ∈ cs, c.toNat < 128 := ascii_of_length
    rw [utf16_cons, encode_cons, List.length_append, List.length_append] at h
    by_cases hd : d.toNat < 128
    · rw [encodeChar_ascii hd, units_ascii hd] at h
      rcases List.mem_cons.mp hc with rfl | hc
      · exact hd
      · exact ih (by simpa using h) c hc
    · obtain ⟨x, y, zs, he, -, hlen⟩ := encodeChar_wide (Nat.le_of_not_lt hd)
      rw [he] at h
      omega

theorem ascii_encode {cs : List Char} (h : ∀ c ∈ cs, c.toNat < 128) : Ascii (encode cs) := by
  intro x hx
  obtain ⟨c, hc, hx⟩ := List.mem_flatMap.mp hx
  rw [encodeChar_ascii (h c hc), List.mem_singleton] at hx
  rw [hx]
  exact byte_ascii (h c hc)

/-- ASCII bytes are well formed, and encode the text of their code units. -/
theorem encode_of_ascii : ∀ {b : Bytes}, Ascii b → ∃ cs, encode cs = b ∧ utf16 cs = asciiText b
  | [], _ => ⟨[], rfl, rfl⟩
  | x :: b, h => by
    obtain ⟨cs, he, ht⟩ := encode_of_ascii fun y hy => h y (List.mem_cons_of_mem x hy)
    have hx : x.toNat < 128 := UInt8.lt_iff_toNat_lt.mp (h x List.mem_cons_self)
    have hvalid : x.toNat.isValidChar := .inl (by omega)
    have hc : (Char.ofNat x.toNat).toNat = x.toNat := by rw [Char.ofNat, dif_pos hvalid]; rfl
    refine ⟨Char.ofNat x.toNat :: cs, ?_, ?_⟩
    · rw [encode_cons, he, encodeChar_ascii (by omega), hc, UInt8.ofNat_toNat]
      rfl
    · have hunit : UInt16.ofNat x.toNat = x.toUInt16 := UInt16.toNat_inj.mp (by simp)
      rw [utf16_cons, ht, units_ascii (by omega), hc, hunit]
      rfl

/-! ## Code pages -/

/-- A character of its own: neither U+FFFD nor half of a pair. -/
def Mapped (u : UInt16) : Prop := u ≠ 0xFFFD ∧ isHigh u = false ∧ isLow u = false

/-- An ANSI code page: a lead byte takes the next byte with it, and ASCII bytes
are single and stand for themselves. -/
structure AnsiPage where
  lead : UInt8 → Bool
  single : UInt8 → UInt16
  double : UInt8 → UInt8 → UInt16
  ascii_single : ∀ x, x < 128 → lead x = false
  ascii_self : ∀ x, x < 128 → single x = x.toUInt16
  mapped_single : ∀ x, Mapped (single x)
  mapped_double : ∀ x y, Mapped (double x y)

namespace AnsiPage
variable (p : AnsiPage)

/-- `gcnew String(b)` -/
def text : Bytes → WString
  | [] => []
  | [x] => [p.single x]
  | x :: y :: rest => if p.lead x then p.double x y :: text rest else p.single x :: text (y :: rest)

/-- No byte is a lead byte. -/
def SingleByte : Prop := ∀ x, p.lead x = false

/-- No character beyond ASCII has a form in UTF-8 that begins with the bytes it
has in the code page. -/
structure Apart : Prop where
  single : ∀ x c, ¬ x < 128 → p.lead x = false → units c = [p.single x] → ¬ [x] <+: String.utf8EncodeChar c
  double : ∀ x y c, p.lead x = true → units c = [p.double x y] → ¬ [x, y] <+: String.utf8EncodeChar c

theorem text_single {x : UInt8} (h : p.lead x = false) (b : Bytes) : p.text (x :: b) = p.single x :: p.text b := by
  cases b with
  | nil => rfl
  | cons y b => rw [text, h]; rfl

theorem text_double {x : UInt8} (h : p.lead x = true) (y : UInt8) (b : Bytes) :
    p.text (x :: y :: b) = p.double x y :: p.text b := by
  rw [text, if_pos h]

/-- ASCII bytes are their own text, and end before what follows. -/
theorem text_append : ∀ {a : Bytes}, Ascii a → ∀ b : Bytes, p.text (a ++ b) = asciiText a ++ p.text b
  | [], _, _ => rfl
  | x :: a, h, b => by
    have hx := h x List.mem_cons_self
    rw [List.cons_append, p.text_single (p.ascii_single x hx), p.ascii_self x hx,
      text_append (fun y hy => h y (List.mem_cons_of_mem x hy)) b]
    rfl

theorem text_ascii {a : Bytes} (h : Ascii a) : p.text a = asciiText a := by
  have := p.text_append h []
  rwa [List.append_nil, show p.text [] = [] from rfl, List.append_nil] at this

theorem text_length (h : p.SingleByte) : ∀ b : Bytes, (p.text b).length = b.length
  | [] => rfl
  | x :: b => by rw [p.text_single (h x), List.length_cons, List.length_cons, text_length h b]

theorem text_mapped : ∀ b : Bytes, ∀ u ∈ p.text b, Mapped u
  | [], u, hu => absurd hu List.not_mem_nil
  | x :: b, u, hu => by
    cases hl : p.lead x with
    | false =>
      rw [p.text_single hl] at hu
      rcases List.mem_cons.mp hu with rfl | hu
      · exact p.mapped_single x
      · exact text_mapped b u hu
    | true =>
      cases b with
      | nil => rw [List.mem_singleton.mp hu]; exact p.mapped_single x
      | cons y b =>
        rw [p.text_double hl] at hu
        rcases List.mem_cons.mp hu with rfl | hu
        · exact p.mapped_double x y
        · exact text_mapped b u hu

end AnsiPage

/-! ## The same text -/

theorem units_wide {c : Char} (h : 128 ≤ c.toNat) :
    (∃ u, units c = [u] ∧ 128 ≤ u.toNat) ∨ ∃ u v, units c = [u, v] ∧ isHigh u = true ∧ 128 ≤ u.toNat := by
  have hmax := toNat_lt_of_char c
  unfold units
  split
  · exact .inl ⟨_, rfl, by rw [UInt16.toNat_ofNat']; omega⟩
  · refine .inr ⟨_, _, rfl, ?_, ?_⟩
    · unfold isHigh
      simp only [UInt16.toNat_ofNat', decide_eq_true_eq, Nat.reducePow]
      omega
    · rw [UInt16.toNat_ofNat']
      omega

/-- Beyond ASCII, `Replace` takes nothing to a code unit but itself. -/
theorem eq_of_replaced {u v : UInt16} (hu : 128 ≤ u.toNat)
    (h : (if v = 47 then (92 : UInt16) else v) = if u = 47 then 92 else u) : v = u := by
  have hne : u ≠ 47 := by rintro rfl; simp at hu
  rw [if_neg hne] at h
  split at h
  · rw [← h] at hu; simp at hu
  · exact h

namespace AnsiPage
variable {p : AnsiPage}

/-- The first character beyond ASCII is read differently. -/
theorem Apart.head_ne (hp : p.Apart) {c : Char} (h : 128 ≤ c.toNat) (b : Bytes) (w : WString) :
    replaceSlashes (p.text (String.utf8EncodeChar c ++ b)) ≠ replaceSlashes (units c ++ w) := by
  obtain ⟨x, y, zs, he, hx, -⟩ := encodeChar_wide h
  rw [he]
  -- what the page reads first is neither the character nor half of a pair
  have hdiffers : ∀ v rest, Mapped v → (units c = [v] → False) →
      replaceSlashes (v :: rest) ≠ replaceSlashes (units c ++ w) := by
    intro v rest hv hne heq
    rcases units_wide h with ⟨u, hu, hwide⟩ | ⟨u, u', hu, hhigh, hwide⟩ <;> rw [hu] at heq
    · have hvu := eq_of_replaced hwide (List.cons.inj heq).1
      exact hne (by rw [hu, hvu])
    · have hvu := eq_of_replaced hwide (List.cons.inj heq).1
      rw [← hvu, hv.2.1] at hhigh
      cases hhigh
  cases hl : p.lead x with
  | false =>
    rw [List.cons_append, p.text_single hl]
    refine hdiffers _ _ (p.mapped_single x) fun hc => hp.single x c hx hl hc ?_
    rw [he]
    exact ⟨y :: zs, rfl⟩
  | true =>
    rw [List.cons_append, List.cons_append, p.text_double hl]
    refine hdiffers _ _ (p.mapped_double x y) fun hc => hp.double x y c hl hc ?_
    rw [he]
    exact ⟨zs, rfl⟩

theorem Apart.ascii (hp : p.Apart) : ∀ {cs : List Char}, replaceSlashes (p.text (encode cs)) = replaceSlashes (utf16 cs) →
    ∀ c ∈ cs, c.toNat < 128
  | [], _, _, hc => absurd hc List.not_mem_nil
  | d :: cs, h, c, hc => by
    have ih : replaceSlashes (p.text (encode cs)) = replaceSlashes (utf16 cs) → ∀ c ∈ cs, c.toNat < 128 := Apart.ascii hp
    rw [encode_cons, utf16_cons] at h
    by_cases hd : d.toNat < 128
    · have hx : Ascii [UInt8.ofNat d.toNat] := List.forall_mem_singleton.mpr (byte_ascii hd)
      rw [encodeChar_ascii hd, units_ascii hd, p.text_append hx, replaceSlashes_append, replaceSlashes_append] at h
      have htail := (List.append_inj h (by simp [asciiText])).2
      rcases List.mem_cons.mp hc with rfl | hc
      · exact hd
      · exact ih htail c hc
    · exact absurd h (hp.head_ne (Nat.le_of_not_lt hd) _ _)

/-- Bytes that a code page and UTF-8 read alike, separators aside, are ASCII. -/
theorem ascii_of_text_eq (hp : p.SingleByte ∨ p.Apart) (d : Utf8Decoder) {b : Bytes}
    (h : replaceSlashes (p.text b) = replaceSlashes (d.decode b)) : Ascii b := by
  by_cases hw : ∃ cs, encode cs = b
  · obtain ⟨cs, rfl⟩ := hw
    rw [d.wellFormed] at h
    refine ascii_encode ?_
    rcases hp with hs | ha
    · have hlen := congrArg List.length h
      rw [replaceSlashes_length, replaceSlashes_length, p.text_length hs] at hlen
      exact ascii_of_length hlen.symm
    · exact ha.ascii h
  · -- the decoder says so, and no code page has U+FFFD
    have hbad := d.malformed b fun cs he => hw ⟨cs, he⟩
    have hmem : (0xFFFD : UInt16) ∈ replaceSlashes (p.text b) := by
      rw [h]
      exact List.mem_map.mpr ⟨_, hbad, by decide⟩
    obtain ⟨v, hv, hrep⟩ := List.mem_map.mp hmem
    have hne := (p.text_mapped b v hv).1
    split at hrep
    · exact absurd hrep (by decide)
    · exact absurd hrep hne

end AnsiPage

theorem decode_ascii (d : Utf8Decoder) {b : Bytes} (h : Ascii b) : d.decode b = asciiText b := by
  obtain ⟨cs, rfl, ht⟩ := encode_of_ascii h
  rw [d.wellFormed, ht]

/-! ## Bytes replaced or dropped -/

abbrev WellFormed (b : Bytes) : Prop := ∃ cs, encode cs = b

/-- A decoder of UTF-8 that never fails: it puts U+FFFD for bytes that are not
well formed, or drops them. -/
structure LenientDecoder where
  decode : Bytes → WString
  wellFormed : ∀ cs, decode (encode cs) = utf16 cs
  malformed : ∀ b, ¬ WellFormed b → 0xFFFD ∈ decode b ∨ ∃ cs, (encode cs).Sublist b ∧ decode b = utf16 cs
  length_le : ∀ b, (decode b).length ≤ b.length
  nonul : ∀ b, 0 ∉ b → 0 ∉ decode b

/-- It drops nothing. -/
def LenientDecoder.Replaces (d : LenientDecoder) : Prop := ∀ b, ¬ WellFormed b → 0xFFFD ∈ d.decode b

/-- No character of two bytes is ASCII. -/
def AnsiPage.Wide (p : AnsiPage) : Prop := ∀ x y, p.lead x = true → 128 ≤ (p.double x y).toNat

/-- A character of its own is all of the character it begins. -/
theorem units_of_mapped {c : Char} {u : UInt16} {s t : WString} (hu : Mapped u) (h : u :: s = units c ++ t) :
    units c = [u] ∧ s = t := by
  unfold units at h ⊢
  by_cases hc : c.toNat < 65536
  · rw [if_pos hc] at h ⊢
    obtain ⟨rfl, rfl⟩ := List.cons.inj h
    exact ⟨rfl, rfl⟩
  · have hmax := toNat_lt_of_char c
    rw [if_neg hc] at h
    have hhigh := hu.2.1
    rw [(List.cons.inj h).1] at hhigh
    unfold isHigh at hhigh
    simp only [UInt16.toNat_ofNat', decide_eq_false_iff_not, Nat.reducePow] at hhigh
    omega

theorem encodeChar_length_pos (c : Char) : 1 ≤ (String.utf8EncodeChar c).length := by
  by_cases h : c.toNat < 128
  · rw [encodeChar_ascii h]; simp
  · obtain ⟨x, y, zs, he, -, -⟩ := encodeChar_wide (Nat.le_of_not_lt h)
    rw [he]; simp

/-- UTF-8 has no fewer bytes for a text than a code page. -/
theorem AnsiPage.length_le_of_text {p : AnsiPage} (hp : p.Wide) : ∀ (b : Bytes) (cs : List Char),
    p.text b = utf16 cs → b.length ≤ (encode cs).length
  | [], _, _ => Nat.zero_le _
  | x :: b, cs, h => by
    cases cs with
    | nil =>
      cases b with
      | nil => cases h
      | cons y b => unfold text at h; split at h <;> cases h
    | cons c cs =>
      have hpos := encodeChar_length_pos c
      rw [utf16_cons] at h
      rw [encode_cons, List.length_append, List.length_cons]
      cases hl : p.lead x with
      | false =>
        rw [p.text_single hl] at h
        have := length_le_of_text hp b cs (units_of_mapped (p.mapped_single x) h).2
        omega
      | true =>
        cases b with
        | nil => simp only [List.length_nil]; omega
        | cons y b =>
          rw [p.text_double hl] at h
          obtain ⟨hc, htail⟩ := units_of_mapped (p.mapped_double x y) h
          have := length_le_of_text hp b cs htail
          -- the character has two bytes in UTF-8, too
          have hwide : ¬ c.toNat < 128 := by
            intro hlt
            have hd := hp x y hl
            rw [units_ascii hlt] at hc
            rw [← (List.cons.inj hc).1, UInt16.toNat_ofNat'] at hd
            omega
          obtain ⟨x', y', zs, he, -, -⟩ := encodeChar_wide (Nat.le_of_not_lt hwide)
          rw [he]
          simp only [List.length_cons]
          omega

/-- Where bytes are replaced or dropped, the text is not that of a code page. -/
theorem AnsiPage.text_ne_lenient {p : AnsiPage} {d : LenientDecoder} (hd : d.Replaces ∨ p.Wide) {b : Bytes}
    (h : ¬ WellFormed b) : d.decode b ≠ p.text b := by
  intro heq
  have hkept : 0xFFFD ∉ d.decode b := fun hbad => (p.text_mapped b _ (heq ▸ hbad)).1 rfl
  rcases d.malformed b h with hbad | ⟨cs, hsub, hcs⟩
  · exact hkept hbad
  · rcases hd with hreplaces | hp
    · exact hkept (hreplaces b h)
    · have hle := p.length_le_of_text hp b cs (heq.symm.trans hcs)
      exact h ⟨cs, hsub.eq_of_length_le hle⟩

/-! ## Core's decoder -/

theorem utf8Decode?_encode (cs : List Char) : (encode cs).toByteArray.utf8Decode? = some cs.toArray := by
  have h : (encode cs).toByteArray = cs.utf8Encode := rfl
  rw [h, List.utf8Decode?_utf8Encode]

theorem utf8Decode?_eq_none_iff (b : Bytes) : b.toByteArray.utf8Decode? = none ↔ ¬ WellFormed b := by
  constructor
  · rintro h ⟨cs, rfl⟩
    rw [utf8Decode?_encode] at h
    cases h
  · intro h
    by_contra hne
    obtain ⟨m, hm⟩ := ByteArray.isSome_utf8Decode?_iff.mp (Option.isSome_iff_ne_none.mpr hne)
    have heq := congrArg (fun a : ByteArray => a.data.toList) hm
    simp only [List.utf8Encode, List.toList_data_toByteArray] at heq
    exact h ⟨m, heq.symm⟩

theorem zero_mem_utf16 : ∀ {cs : List Char}, 0 ∈ utf16 cs → 0 ∈ encode cs
  | [], h => absurd h List.not_mem_nil
  | c :: cs, h => by
    rw [encode_cons, List.mem_append]
    rw [utf16_cons, List.mem_append] at h
    refine h.imp (fun hc => ?_) zero_mem_utf16
    have hzero : c.toNat = 0 := by
      by_contra hne
      have hmax := toNat_lt_of_char c
      unfold units at hc
      split at hc <;>
        simp only [List.mem_cons, List.not_mem_nil, or_false, ← UInt16.toNat_inj, UInt16.toNat_ofNat',
          UInt16.toNat_zero] at hc <;> omega
    rw [encodeChar_ascii (by omega), hzero]
    exact List.mem_singleton_self _

/-- A character beyond ASCII has more than one byte. -/
theorem malformed_of_lone {x : UInt8} (hx : ¬ x < 128) : ∀ {a : Bytes}, Ascii a → ¬ WellFormed (a ++ [x])
  | a, ha, ⟨[], he⟩ => by cases a <;> cases he
  | a, ha, ⟨c :: cs, he⟩ => by
    rw [encode_cons] at he
    by_cases hc : c.toNat < 128
    · rw [encodeChar_ascii hc] at he
      cases a with
      | nil => exact hx ((List.cons.inj he).1 ▸ byte_ascii hc)
      | cons y a =>
        exact malformed_of_lone hx (fun z hz => ha z (List.mem_cons_of_mem y hz)) ⟨cs, (List.cons.inj he).2⟩
    · obtain ⟨x', y', zs, hwide, hx', -⟩ := encodeChar_wide (Nat.le_of_not_lt hc)
      rw [hwide] at he
      cases a with
      | nil => cases (List.cons.inj he).2
      | cons y a => exact hx' ((List.cons.inj he).1 ▸ ha y List.mem_cons_self)

/-! ## Some of them -/

/-- Code page 1252 has characters of its own from 80 to 9F, and is Latin-1 elsewhere. -/
def windows1252High : WString :=
  [0x20AC, 0x0081, 0x201A, 0x0192, 0x201E, 0x2026, 0x2020, 0x2021, 0x02C6, 0x2030, 0x0160, 0x2039, 0x0152, 0x008D,
    0x017D, 0x008F, 0x0090, 0x2018, 0x2019, 0x201C, 0x201D, 0x2022, 0x2013, 0x2014, 0x02DC, 0x2122, 0x0161, 0x203A,
    0x0153, 0x009D, 0x017E, 0x0178]

def windows1252 : AnsiPage where
  lead _ := false
  single x := if 128 ≤ x.toNat ∧ x.toNat < 160 then windows1252High.getD (x.toNat - 128) 63 else x.toUInt16
  double _ _ := 63
  ascii_single _ _ := rfl
  ascii_self x hx := by
    have := UInt8.lt_iff_toNat_lt.mp hx
    simp only [UInt8.reduceToNat] at this
    exact if_neg (by omega)
  mapped_single x := by
    split
    · rw [List.getD_eq_getElem?_getD]
      cases hg : windows1252High[x.toNat - 128]? with
      | none => exact ⟨by decide, by decide, by decide⟩
      | some v =>
        have hall : windows1252High.all (fun v => v ≠ 0xFFFD ∧ isHigh v = false ∧ isLow v = false) = true := by decide
        have hv := of_decide_eq_true (List.all_eq_true.mp hall v (List.mem_of_getElem? hg))
        exact hv
    · have hx := UInt8.toNat_lt x
      have hnat : x.toUInt16.toNat = x.toNat := UInt8.toNat_toUInt16 x
      refine ⟨fun h => ?_, ?_, ?_⟩
      · rw [h] at hnat
        simp only [UInt16.reduceToNat] at hnat
        omega
      · simp only [isHigh, hnat, decide_eq_false_iff_not]
        omega
      · simp only [isLow, hnat, decide_eq_false_iff_not]
        omega
  mapped_double _ _ := ⟨by decide, by decide, by decide⟩

/-- Gives one U+FFFD for bytes that are not well formed as a whole. -/
def strictDecoder : Utf8Decoder where
  decode b :=
    match b.toByteArray.utf8Decode? with
    | some cs => utf16 cs.toList
    | none => [0xFFFD]
  wellFormed cs := by rw [utf8Decode?_encode]
  malformed b hb := by
    rw [(utf8Decode?_eq_none_iff b).mpr fun h => h.elim hb]
    exact List.mem_singleton_self _

/-- Puts one U+FFFD for each byte beyond ASCII of bytes that are not well
formed as a whole. -/
def replacingDecoder : LenientDecoder where
  decode b :=
    match b.toByteArray.utf8Decode? with
    | some cs => utf16 cs.toList
    | none => b.map fun x => if x < 128 then x.toUInt16 else 0xFFFD
  wellFormed cs := by rw [utf8Decode?_encode]
  malformed b hb := by
    rw [(utf8Decode?_eq_none_iff b).mpr hb]
    -- ASCII bytes would be well formed
    have hwide : ∃ x ∈ b, ¬ x < 128 := by
      by_contra hall
      push Not at hall
      obtain ⟨cs, he, -⟩ := encode_of_ascii (b := b) hall
      exact hb ⟨cs, he⟩
    obtain ⟨x, hx, hlt⟩ := hwide
    exact .inl (List.mem_map.mpr ⟨x, hx, if_neg hlt⟩)
  length_le b := by
    by_cases hb : WellFormed b
    · obtain ⟨cs, rfl⟩ := hb
      rw [utf8Decode?_encode]
      exact utf16_length_le cs
    · rw [(utf8Decode?_eq_none_iff b).mpr hb, List.length_map]
  nonul b hno hzero := by
    by_cases hb : WellFormed b
    · obtain ⟨cs, rfl⟩ := hb
      rw [utf8Decode?_encode] at hzero
      exact hno (zero_mem_utf16 hzero)
    · rw [(utf8Decode?_eq_none_iff b).mpr hb] at hzero
      obtain ⟨x, hx, hx0⟩ := List.mem_map.mp hzero
      split at hx0
      · have hnat := congrArg UInt16.toNat hx0
        rw [UInt8.toNat_toUInt16] at hnat
        have hzero : x = 0 := UInt8.toNat_inj.mp hnat
        exact hno (hzero ▸ hx)
      · exact absurd hx0 (by decide)

end ModAspNet.L1.Decoding
