import ComponentFile.Proofs.Text.Slicing

/-!
# The UTF-8 form of a text

A character of ASCII is one byte, and every byte of another character is 128 or more. So a byte of
ASCII is always a whole character: looking for such a byte in the UTF-8 form is looking for the
character in the text, and what is found lies on a character boundary.
-/

namespace ComponentFile.Text

/-- The bytes of the UTF-8 form. -/
def utf8 (text : Text) : List UInt8 := text.flatMap String.utf8EncodeChar

@[simp] theorem utf8_nil : utf8 [] = [] := rfl

@[simp] theorem utf8_cons (c : Char) (text : Text) :
    utf8 (c :: text) = String.utf8EncodeChar c ++ utf8 text :=
  List.flatMap_cons

@[simp] theorem utf8_append (left right : Text) : utf8 (left ++ right) = utf8 left ++ utf8 right :=
  List.flatMap_append

@[simp] theorem length_utf8 (text : Text) : (utf8 text).length = text.byteSize := by
  induction text with
  | nil => rfl
  | cons c text ih =>
    rw [utf8_cons, List.length_append, String.length_utf8EncodeChar, ih, byteSize_cons]

/-- A connected piece of a text has no more bytes than the text. -/
theorem byteSize_le_of_isInfix {piece text : Text} (h : piece <:+: text) :
    piece.byteSize ≤ text.byteSize := by
  obtain ⟨before, after, rfl⟩ := h
  rw [byteSize_append, byteSize_append]
  omega

theorem byteSize_trim_le (text : Text) : text.trim.byteSize ≤ text.byteSize :=
  byteSize_le_of_isInfix (trim_isInfix text)

/-- A text is a connected piece of every text that it is joined into. -/
theorem isInfix_join {separator text : Text} {texts : List Text} (h : text ∈ texts) :
    text <:+: join separator texts := by
  induction texts with
  | nil => cases h
  | cons first texts ih =>
    cases texts with
    | nil =>
      obtain rfl := List.mem_singleton.mp h
      exact List.infix_rfl
    | cons next texts =>
      have hjoin : join separator (first :: next :: texts) =
          first ++ separator ++ join separator (next :: texts) := rfl
      rw [hjoin]
      rcases List.mem_cons.mp h with rfl | h
      · rw [List.append_assoc]
        exact (List.prefix_append _ _).isInfix
      · exact (ih h).trans (List.suffix_append _ _).isInfix

/-! ## Single characters -/

/-- The character is one of ASCII. -/
def IsAscii (c : Char) : Prop := c.toNat < 128

instance (c : Char) : Decidable (IsAscii c) := inferInstanceAs (Decidable (c.toNat < 128))

/-- The character of ASCII that a byte stands for. -/
def ascii? (byte : UInt8) : Option Char :=
  if byte.toNat < 128 then some (Char.ofNat byte.toNat) else none

/-- A character of ASCII is one byte. -/
theorem utf8EncodeChar_of_isAscii {c : Char} (h : IsAscii c) :
    String.utf8EncodeChar c = [c.toUInt8] := by
  have hle : c.val.toNat ≤ 127 := Nat.le_of_lt_succ h
  simp only [String.utf8EncodeChar, if_pos hle]
  rfl

theorem utf8Size_of_isAscii {c : Char} (h : IsAscii c) : c.utf8Size = 1 := by
  rw [← String.length_utf8EncodeChar, utf8EncodeChar_of_isAscii h]
  rfl

theorem byteSize_concat {c : Char} (h : IsAscii c) (before : Text) :
    (before ++ [c]).byteSize = before.byteSize + 1 := by
  rw [byteSize_append, byteSize_cons, utf8Size_of_isAscii h, byteSize_nil]

private theorem le_of_mem_utf8EncodeChar {c : Char} (h : ¬IsAscii c) {byte : UInt8}
    (hb : byte ∈ String.utf8EncodeChar c) :
    128 ≤ byte.toNat := by
  have hnot : ¬c.val.toNat ≤ 127 := fun hle => h (Nat.lt_succ_of_le hle)
  simp only [String.utf8EncodeChar, if_neg hnot] at hb
  split at hb
  · simp only [List.mem_cons, List.not_mem_nil, or_false] at hb
    rcases hb with rfl | rfl <;> rw [UInt8.toNat_ofNat'] <;> omega
  split at hb
  · simp only [List.mem_cons, List.not_mem_nil, or_false] at hb
    rcases hb with rfl | rfl | rfl <;> rw [UInt8.toNat_ofNat'] <;> omega
  · simp only [List.mem_cons, List.not_mem_nil, or_false] at hb
    rcases hb with rfl | rfl | rfl | rfl <;> rw [UInt8.toNat_ofNat'] <;> omega

/-- The byte of a character of ASCII stands for it. -/
theorem ascii?_toUInt8 {c : Char} (h : IsAscii c) : ascii? c.toUInt8 = some c := by
  have hvalue : c.toUInt8.toNat = c.toNat := by
    rw [Char.toUInt8, UInt32.toNat_toUInt8]
    exact Nat.mod_eq_of_lt (Nat.lt_trans h (by decide))
  have hlt : c.toNat < 128 := h
  rw [ascii?, hvalue, if_pos hlt, Char.ofNat_toNat]

/-- No byte of a character outside ASCII stands for a character. -/
theorem ascii?_of_mem_utf8EncodeChar {c : Char} (h : ¬IsAscii c) {byte : UInt8}
    (hb : byte ∈ String.utf8EncodeChar c) : ascii? byte = none :=
  if_neg (Nat.not_lt.mpr (le_of_mem_utf8EncodeChar h hb))

/-- Whether the byte is a character of ASCII with the property. -/
def byteHas (p : Char → Bool) (byte : UInt8) : Bool := (ascii? byte).any p

theorem byteHas_toUInt8 {c : Char} (h : IsAscii c) (p : Char → Bool) :
    byteHas p c.toUInt8 = p c := by
  rw [byteHas, ascii?_toUInt8 h, Option.any_some]

/-- A byte has no property that its character lacks. -/
theorem byteHas_of_mem {c : Char} {p : Char → Bool} (hp : p c = false) {byte : UInt8}
    (hb : byte ∈ String.utf8EncodeChar c) : byteHas p byte = false := by
  by_cases h : IsAscii c
  · rw [utf8EncodeChar_of_isAscii h] at hb
    rw [List.mem_singleton.mp hb, byteHas_toUInt8 h, hp]
  · rw [byteHas, ascii?_of_mem_utf8EncodeChar h hb, Option.any_none]

/-! ## Bytes in their places -/

/-- The character of ASCII whose byte stands at the offset. -/
def charAt? (offset : Nat) (text : Text) : Option Char := (utf8 text)[offset]? >>= ascii?

/-- Behind a front, offsets count from the end of the front. -/
theorem charAt?_append (before text : Text) (offset : Nat) :
    charAt? (before.byteSize + offset) (before ++ text) = charAt? offset text := by
  rw [charAt?, utf8_append, List.getElem?_append_right (by rw [length_utf8]; omega), length_utf8,
    Nat.add_sub_cancel_left]
  rfl

/-- A character of ASCII is found at its own offset. -/
theorem charAt?_append_cons {c : Char} (h : IsAscii c) (before rest : Text) :
    charAt? before.byteSize (before ++ c :: rest) = some c := by
  rw [← Nat.add_zero before.byteSize, charAt?_append, charAt?, utf8_cons,
    utf8EncodeChar_of_isAscii h]
  exact ascii?_toUInt8 h

/-- What is found at one of the bytes of a character is that character. -/
theorem eq_of_charAt?_eq_some {before rest : Text} {c target : Char} {offset : Nat}
    (hrange : offset ∈ List.range' before.byteSize c.utf8Size)
    (h : charAt? offset (before ++ c :: rest) = some target) : c = target ∧ IsAscii c := by
  obtain ⟨hle, hlt⟩ := List.mem_range'_1.mp hrange
  by_cases hc : IsAscii c
  · rw [utf8Size_of_isAscii hc] at hlt
    obtain rfl : offset = before.byteSize := by omega
    rw [charAt?_append_cons hc] at h
    exact ⟨Option.some.inj h, hc⟩
  · -- no byte of the character stands for a character of its own
    obtain ⟨inner, rfl⟩ := Nat.exists_eq_add_of_le hle
    have hinner : inner < (String.utf8EncodeChar c).length := by
      rw [String.length_utf8EncodeChar]
      omega
    rw [charAt?_append, charAt?, utf8_cons, List.getElem?_append_left hinner,
      List.getElem?_eq_getElem hinner] at h
    have hnone := ascii?_of_mem_utf8EncodeChar hc (List.getElem_mem hinner)
    exact absurd (hnone.symm.trans h) (Option.some_ne_none _).symm

/-- Only characters of the text are found. -/
theorem mem_of_charAt?_eq_some {offset : Nat} {text : Text} {c : Char}
    (h : charAt? offset text = some c) :
    c ∈ text := by
  obtain ⟨byte, hbyte, hascii⟩ := Option.bind_eq_some_iff.mp h
  obtain ⟨d, hd, hencoded⟩ := List.mem_flatMap.mp (List.mem_of_getElem? hbyte)
  by_cases hc : IsAscii d
  · rw [utf8EncodeChar_of_isAscii hc] at hencoded
    rw [List.mem_singleton.mp hencoded, ascii?_toUInt8 hc] at hascii
    exact Option.some.inj hascii ▸ hd
  · exact absurd (hascii.symm.trans (ascii?_of_mem_utf8EncodeChar hc hencoded))
      (Option.some_ne_none c)

/-- What is found at the first byte is the first character. -/
theorem eq_of_charAt?_zero {c target : Char} {rest : Text}
    (h : charAt? 0 (c :: rest) = some target) :
    c = target ∧ IsAscii c := by
  have hrange : 0 ∈ List.range' (byteSize []) c.utf8Size :=
    List.mem_range'_1.mpr ⟨Nat.le_refl 0, Nat.lt_of_lt_of_eq c.utf8Size_pos (Nat.zero_add _).symm⟩
  exact eq_of_charAt?_eq_some hrange h

/-- A symbol of ASCII whose bytes stand at an offset is found there. -/
theorem charAt?_of_isPrefix {s : Char} {symbol text : Text} {offset : Nat} (hs : IsAscii s)
    (h : utf8 (s :: symbol) <+: (utf8 text).drop offset) : charAt? offset text = some s := by
  rw [utf8_cons, utf8EncodeChar_of_isAscii hs] at h
  have hbyte := List.prefix_iff_getElem?.mp h 0 (Nat.succ_pos _)
  rw [List.getElem?_drop, Nat.add_zero] at hbyte
  rw [charAt?, hbyte]
  exact ascii?_toUInt8 hs

/-- A symbol of ASCII starts the bytes of a text if and only if it starts the text. -/
theorem utf8_isPrefix_iff {symbol : Text} (h : ∀ c ∈ symbol, IsAscii c) (text : Text) :
    utf8 symbol <+: utf8 text ↔ symbol <+: text := by
  constructor
  · intro hprefix
    induction symbol generalizing text with
    | nil => exact List.nil_prefix
    | cons s symbol ih =>
      obtain ⟨hs, hsymbol⟩ := List.forall_mem_cons.mp h
      have hfirst : charAt? 0 text = some s := charAt?_of_isPrefix hs hprefix
      cases text with
      | nil => cases hfirst
      | cons c text =>
        obtain ⟨rfl, hc⟩ := eq_of_charAt?_zero hfirst
        rw [utf8_cons, utf8_cons, List.prefix_append_right_inj] at hprefix
        exact List.cons_prefix_cons.mpr ⟨rfl, ih hsymbol text hprefix⟩
  · rintro ⟨rest, rfl⟩
    rw [utf8_append]
    exact List.prefix_append _ _

end ComponentFile.Text
