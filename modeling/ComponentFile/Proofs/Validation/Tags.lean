import ComponentFile.Proofs.Validation.Handlers

/-!
# Tags of markup

Markup is written as texts, closing tags, and opening tags with attributes. A standard tag is known
by its name and ends at the next angle bracket, whether it stands in quotes or not. As long as no
value cuts its tag short and no value on another tag opens a standard one, the standard tags are
read one after the other, each with its attributes.
-/

namespace ComponentFile.Validation

open Segment

/-! ## Written markup -/

/-- A value in quotes. -/
structure QuotedValue where
  quote : Char
  text : Text
  isQuote : quote = '"' ∨ quote = '\''
  quote_not_mem : quote ∉ text
  isAscii : ∀ c ∈ text, c.toNat < 128

/-- An attribute of a tag with the white space before it, and its value if it has one. -/
structure TagAttribute where
  space : Text
  name : Text
  value : Option QuotedValue
  space_ne_nil : space ≠ []
  isBlank_of_mem : ∀ c ∈ space, isBlank c = true
  isAlpha_head : ∃ c rest, name = c :: rest ∧ c.isAlpha = true
  isNameChar_of_mem : ∀ c ∈ name, c.isAlphanum = true ∨ c = '-'

/-- The text of an attribute. -/
def TagAttribute.text (attr : TagAttribute) : Text :=
  attr.space ++ (attr.name ++
    match attr.value with
    | none => []
    | some value => '=' :: value.quote :: (value.text ++ [value.quote]))

/-- An opening tag with the white space behind its attributes. -/
structure OpeningTag where
  name : Text
  attributes : List TagAttribute
  trailing : Text
  selfClosing : Bool
  name_ne_nil : name ≠ []
  isNameChar_of_mem : ∀ c ∈ name, isBlank c = false ∧ c ≠ '<' ∧ c ≠ '>' ∧ c ≠ '/'
  isBlank_of_mem : ∀ c ∈ trailing, isBlank c = true

namespace OpeningTag

/-- The attributes as they are written. -/
def written (tag : OpeningTag) : Text := tag.attributes.flatMap TagAttribute.text ++ tag.trailing

/-- The text between the name and the end of the tag. -/
def inside (tag : OpeningTag) : Text := tag.written ++ if tag.selfClosing then ['/'] else []

/-- The text of a tag. -/
def text (tag : OpeningTag) : Text := '<' :: (tag.name ++ (tag.inside ++ ['>']))

/-- The values of the attributes. -/
def values (tag : OpeningTag) : List QuotedValue := tag.attributes.filterMap TagAttribute.value

/-- No value on a standard tag cuts it short, and no value on another tag opens a standard one. -/
structure Undisturbed (tag : OpeningTag) : Prop where
  standard : tag.name ∈ standardTags → ∀ value ∈ tag.values, '>' ∉ value.text
  other : tag.name ∉ standardTags → ∀ value ∈ tag.values, ∀ name ∈ standardTags,
    ¬('<' :: name) <:+: value.text

end OpeningTag

/-- A piece of markup. -/
inductive MarkupPiece where
  /-- Text without angle brackets. -/
  | text (chars : Text) (h : ∀ c ∈ chars, c ≠ '<' ∧ c ≠ '>')
  /-- A closing tag. -/
  | closing (name : Text) (h : ∀ c ∈ name, c ≠ '<' ∧ c ≠ '>')
  /-- An opening tag. -/
  | opening (tag : OpeningTag)

/-- The text of a piece. -/
def MarkupPiece.source : MarkupPiece → Text
  | .text chars _ => chars
  | .closing name _ => '<' :: '/' :: (name ++ ['>'])
  | .opening tag => tag.text

/-- The text of markup. -/
def markup (pieces : List MarkupPiece) : Text := pieces.flatMap MarkupPiece.source

/-! ## Reading a tag -/

theorem isAlphanum_of_mem_standardTags :
    ∀ name ∈ standardTags, ∀ c ∈ name, c.isAlphanum = true := by
  have hall : (standardTags.all fun name => name.all Char.isAlphanum) = true := by decide +kernel
  intro name hname
  exact List.all_eq_true.mp (List.all_eq_true.mp hall name hname)

/-- A tag does not end, and its attributes do not start, at a character of its name. -/
theorem tagRest?_cons_eq_none {c : Char} (hblank : isBlank c = false) (hbracket : c ≠ '>')
    (hslash : c ≠ '/') (rest : Text) : tagRest? (c :: rest) = none := by
  unfold tagRest?
  split
  · next he => exact absurd (List.cons.inj he).1 hbracket
  · next he => exact absurd (List.cons.inj he).1 hslash
  · next he =>
    obtain ⟨rfl, rfl⟩ := List.cons.inj he
    rw [hblank]
    rfl
  · next he => cases he

/-- A search with one candidate finds what the candidate gives. -/
private theorem findSome?_eq_of_forall_ne {α β : Type} {candidates : List α} {f : α → Option β}
    {a : α} (ha : a ∈ candidates) (h : ∀ b ∈ candidates, b ≠ a → f b = none) :
    candidates.findSome? f = f a := by
  induction candidates with
  | nil => cases ha
  | cons b candidates ih =>
    rw [List.forall_mem_cons] at h
    rw [List.findSome?_cons]
    by_cases hb : b = a
    · subst hb
      cases hfirst : f b with
      | some value => rfl
      | none =>
        rw [List.findSome?_eq_none_iff]
        intro c hc
        by_cases hcb : c = b
        · exact hcb ▸ hfirst
        · exact h.2 c hc hcb
    · rw [h.1 hb]
      exact ih (List.mem_of_ne_of_mem (Ne.symm hb) ha) h.2

section

variable {name rest : Text} (hname : ∀ c ∈ name, isBlank c = false ∧ c ≠ '<' ∧ c ≠ '>' ∧ c ≠ '/')
  (hrest : ∀ c ∈ rest.head?, c.isAlphanum = false)

include hname hrest

/-- No standard name but its own can be read at the start of a tag. -/
private theorem bind_tagRest?_eq_none {standard : Text}
    (hstandard : ∀ c ∈ standard, c.isAlphanum = true) (hne : standard ≠ name) :
    (Text.after? standard (name ++ rest)).bind tagRest? = none := by
  rw [Option.bind_eq_none_iff]
  intro after hafter
  rcases List.append_eq_append_iff.mp (Text.after?_eq_some_iff.mp hafter) with
    ⟨more, rfl, hmore⟩ | ⟨more, rfl, rfl⟩
  · -- the standard name is longer and would go on behind the name
    cases more with
    | nil => exact absurd (List.append_nil name) hne
    | cons c more =>
      have hc := hrest c (hmore ▸ rfl)
      rw [hstandard c (List.mem_append_right _ List.mem_cons_self)] at hc
      cases hc
  · -- the standard name is shorter and the name goes on behind it
    cases more with
    | nil => exact absurd (List.append_nil standard).symm hne
    | cons c more =>
      obtain ⟨hblank, -, hbracket, hslash⟩ := hname c (List.mem_append_right _ List.mem_cons_self)
      exact tagRest?_cons_eq_none hblank hbracket hslash _

/-- A tag is read as a standard one by its own name. -/
theorem standardTag_cons_append :
    standardTag ('<' :: (name ++ rest)) =
      if name ∈ standardTags then
        (tagRest? rest).map fun (inside, length) =>
          ({ name, attributes := dropSlash (inside.getD []) }, name.length + length + 1)
      else none := by
  have hopen : Text.after? ['<'] ('<' :: (name ++ rest)) = some (name ++ rest) := rfl
  simp only [standardTag, hopen, Option.bind_eq_bind, Option.bind_some, Option.pure_def]
  have hother (standard : Text) (hmem : standard ∈ standardTags) (hne : standard ≠ name) :
      ((Text.after? standard (name ++ rest)).bind fun after => (tagRest? after).bind fun found =>
        some (({ name := standard, attributes := dropSlash (found.1.getD []) } : StandardTag),
          standard.length + found.2 + 1)) = none := by
    have hnone := bind_tagRest?_eq_none hname hrest
      (isAlphanum_of_mem_standardTags standard hmem) hne
    rw [← Option.bind_assoc, hnone, Option.bind_none]
  by_cases hmem : name ∈ standardTags
  · rw [if_pos hmem, findSome?_eq_of_forall_ne hmem hother, Text.after?_append, Option.bind_some,
      Option.map_eq_bind]
    rfl
  · rw [if_neg hmem, List.findSome?_eq_none_iff]
    exact fun standard hstandard => hother standard hstandard fun he => hmem (he ▸ hstandard)

end

/-- Only at an opening angle bracket a tag is read. -/
theorem standardTag_of_ne {c : Char} (h : c ≠ '<') (rest : Text) :
    standardTag (c :: rest) = none := by
  have hopen : Text.after? ['<'] (c :: rest) = none := if_neg (Ne.symm h)
  rw [standardTag, hopen]
  rfl

/-- No standard tag is read where no standard name follows the angle bracket. -/
private theorem standardTag_of_not_prefix {rest : Text}
    (h : ∀ name ∈ standardTags, ¬name <+: rest) :
    standardTag ('<' :: rest) = none := by
  have hopen : Text.after? ['<'] ('<' :: rest) = some rest := rfl
  simp only [standardTag, hopen, Option.bind_eq_bind, Option.bind_some, List.findSome?_eq_none_iff]
  intro name hname
  rw [Text.after?_eq_none_iff.mpr (h name hname), Option.bind_none]

/-! ## Characters of attributes -/

/-- A letter, a digit or a hyphen, by its number. -/
theorem toNat_of_isNameChar {c : Char} (h : c.isAlphanum = true ∨ c = '-') :
    48 ≤ c.toNat ∧ c.toNat ≤ 57 ∨ 65 ≤ c.toNat ∧ c.toNat ≤ 90 ∨ 97 ≤ c.toNat ∧ c.toNat ≤ 122 ∨
      c.toNat = 45 := by
  rcases h with h | rfl
  · rw [Char.isAlphanum, Bool.or_eq_true] at h
    rcases h with h | h
    · have hletter := Text.toNat_of_isAlpha h
      omega
    · have hdigit := Text.toNat_of_isDigit h
      omega
  · decide

theorem isWordChar_of_isNameChar {c : Char} (h : c.isAlphanum = true ∨ c = '-') :
    isWordChar c = true := by
  have hrange := toNat_of_isNameChar h
  rw [isWordChar, Text.isBlank_of_toNat (by omega) (by omega), Bool.not_false,
    Bool.true_and, bne_iff_ne]
  rintro rfl
  exact absurd hrange (by decide)

theorem TagAttribute.exists_space (attr : TagAttribute) :
    ∃ front blank, attr.space = front ++ [blank] ∧ isBlank blank = true ∧ ∀ c ∈ front,
      isBlank c = true := by
  obtain ⟨front, blank, hspace⟩ :=
    (List.eq_nil_or_concat' attr.space).resolve_left attr.space_ne_nil
  have hblanks := attr.isBlank_of_mem
  rw [hspace, List.forall_mem_append] at hblanks
  exact ⟨front, blank, hspace, hblanks.2 blank List.mem_cons_self, hblanks.1⟩

/-- An attribute does not end with a slash. -/
theorem TagAttribute.exists_text_eq_concat (attr : TagAttribute) :
    ∃ front c, attr.text = front ++ [c] ∧ c ≠ '/' := by
  unfold TagAttribute.text
  cases attr.value with
  | none =>
    obtain ⟨first, rest, hfirst, -⟩ := attr.isAlpha_head
    have hne : attr.name ≠ [] := hfirst ▸ List.cons_ne_nil first rest
    obtain ⟨front, c, hname⟩ := (List.eq_nil_or_concat' attr.name).resolve_left hne
    refine ⟨attr.space ++ front, c, by rw [hname, List.append_nil, List.append_assoc], ?_⟩
    rintro rfl
    have hslash := toNat_of_isNameChar (attr.isNameChar_of_mem '/' (hname ▸ List.mem_concat_self))
    exact absurd hslash (by decide)
  | some value =>
    refine ⟨attr.space ++ (attr.name ++ '=' :: value.quote :: value.text), value.quote, ?_, ?_⟩
    · simp only [List.append_assoc, List.cons_append]
    · rcases value.isQuote with he | he <;> rw [he] <;> decide

/-- Attributes and the white space behind them start with white space. -/
theorem isBlank_head_attributes (attributes : List TagAttribute) {trailing : Text}
    (htrailing : ∀ c ∈ trailing, isBlank c = true) :
    ∀ c ∈ (attributes.flatMap TagAttribute.text ++ trailing).head?, isBlank c = true := by
  intro c hc
  cases attributes with
  | nil => exact htrailing c (List.mem_of_mem_head? hc)
  | cons attr attributes =>
    obtain ⟨d, space, hspace⟩ := List.exists_cons_of_ne_nil attr.space_ne_nil
    rw [List.flatMap_cons, TagAttribute.text, hspace] at hc
    rw [← Option.some.inj hc]
    exact attr.isBlank_of_mem d (hspace ▸ List.mem_cons_self)

namespace OpeningTag

variable (tag : OpeningTag)

/-- The characters of attributes are those of white space, of names and of values, and the signs
between them. -/
theorem forall_mem_written {p : Char → Prop} (hblank : ∀ c, isBlank c = true → p c)
    (hname : ∀ c, c.isAlphanum = true ∨ c = '-' → p c) (hequals : p '=') (hdouble : p '"')
    (hsingle : p '\'') (hvalue : ∀ value ∈ tag.values, ∀ c ∈ value.text, p c) :
    ∀ c ∈ tag.written, p c := by
  intro c hc
  rw [written, List.mem_append, List.mem_flatMap] at hc
  rcases hc with ⟨attr, hattr, hc⟩ | hc
  · rw [TagAttribute.text, List.mem_append, List.mem_append] at hc
    rcases hc with hc | hc | hc
    · exact hblank c (attr.isBlank_of_mem c hc)
    · exact hname c (attr.isNameChar_of_mem c hc)
    · cases hform : attr.value with
      | none =>
        rw [hform] at hc
        cases hc
      | some value =>
        have hmem : value ∈ tag.values := List.mem_filterMap.mpr ⟨attr, hattr, hform⟩
        have hquote : p value.quote := by
          rcases value.isQuote with he | he
          · exact he ▸ hdouble
          · exact he ▸ hsingle
        rw [hform] at hc
        simp only [List.mem_cons, List.mem_append, List.not_mem_nil, or_false] at hc
        rcases hc with rfl | rfl | hc | rfl
        · exact hequals
        · exact hquote
        · exact hvalue value hmem c hc
        · exact hquote
  · exact hblank c (tag.isBlank_of_mem c hc)

theorem isBlank_head_written : ∀ c ∈ tag.written.head?, isBlank c = true :=
  isBlank_head_attributes tag.attributes tag.isBlank_of_mem

private theorem getLast?_written : tag.written.getLast? ≠ some '/' := by
  rw [written]
  rcases List.eq_nil_or_concat' tag.trailing with htrailing | ⟨front, c, htrailing⟩
  · rw [htrailing, List.append_nil]
    rcases List.eq_nil_or_concat' tag.attributes with hnone | ⟨others, attr, hattributes⟩
    · rw [hnone]
      exact (Option.some_ne_none '/').symm
    · obtain ⟨front, c, htext, hc⟩ := attr.exists_text_eq_concat
      rw [hattributes, List.flatMap_append, List.flatMap_singleton, htext, ← List.append_assoc,
        List.getLast?_concat]
      exact fun he => hc (Option.some.inj he)
  · have hblank := tag.isBlank_of_mem c (htrailing ▸ List.mem_concat_self)
    rw [htrailing, ← List.append_assoc, List.getLast?_concat]
    intro he
    rw [Option.some.inj he] at hblank
    cases hblank

private theorem dropSlash_inside : dropSlash tag.inside = tag.written := by
  rw [inside, dropSlash]
  cases tag.selfClosing with
  | false =>
    rw [if_neg Bool.false_ne_true, List.append_nil]
    exact if_neg tag.getLast?_written
  | true =>
    rw [if_pos rfl, List.getLast?_concat]
    exact List.dropLast_concat

end OpeningTag

/-- The rest of a tag behind white space goes on up to the next angle bracket. -/
private theorem tagRest?_of_blank {c : Char} {inside : Text} (hblank : isBlank c = true)
    (h : '>' ∉ c :: inside) (after : Text) :
    tagRest? (c :: inside ++ '>' :: after) =
      some (some (c :: inside), (c :: inside).length + 1) := by
  have hcut : Text.cut? ['>'] (c :: inside ++ ['>'] ++ after) = some (c :: inside, after) :=
    Text.cut?_of_not_mem h
  rw [List.append_assoc, List.cons_append] at hcut
  rw [List.cons_append]
  unfold tagRest?
  split
  · next he =>
    obtain rfl := (List.cons.inj he).1
    cases hblank
  · next he =>
    obtain rfl := (List.cons.inj he).1
    cases hblank
  · next he =>
    obtain ⟨rfl, rfl⟩ := List.cons.inj he
    rw [if_pos hblank]
    exact congrArg _ hcut
  · next he => cases he

namespace OpeningTag

variable (tag : OpeningTag)

/-- The rest of a tag is read up to its own end, and its attributes are found. -/
private theorem tagRest?_inside (h : '>' ∉ tag.written) (after : Text) :
    ∃ inside, tagRest? (tag.inside ++ '>' :: after) = some (inside, tag.inside.length + 1) ∧
      dropSlash (inside.getD []) = tag.written := by
  have hslash := tag.dropSlash_inside
  cases hwritten : tag.written with
  | nil =>
    rw [inside, hwritten, List.nil_append]
    cases tag.selfClosing with
    | false => exact ⟨none, rfl, rfl⟩
    | true => exact ⟨none, rfl, rfl⟩
  | cons c rest =>
    have hblank := tag.isBlank_head_written c (hwritten ▸ rfl)
    have hfree : '>' ∉ tag.inside := by
      rw [inside, List.mem_append, not_or]
      refine ⟨h, ?_⟩
      cases tag.selfClosing <;> decide
    obtain ⟨more, hmore⟩ : ∃ more, tag.inside = c :: more := by
      rw [inside, hwritten]
      exact ⟨_, rfl⟩
    rw [hmore] at hfree hslash ⊢
    exact ⟨some (c :: more), tagRest?_of_blank hblank hfree after, hslash.trans hwritten⟩

/-- A name is followed by white space, a slash or the end of the tag. -/
theorem isAlphanum_head_inside (after : Text) :
    ∀ c ∈ (tag.inside ++ '>' :: after).head?, c.isAlphanum = false := by
  intro c hc
  rw [inside] at hc
  cases hwritten : tag.written with
  | nil =>
    rw [hwritten] at hc
    cases hslash : tag.selfClosing <;> rw [hslash] at hc <;> rw [← Option.some.inj hc] <;> rfl
  | cons d rest =>
    rw [hwritten] at hc
    have hblank := tag.isBlank_head_written c (hwritten ▸ hc)
    cases halphanum : c.isAlphanum with
    | false => rfl
    | true =>
      rw [isBlank_of_isWordChar (isWordChar_of_isNameChar (.inl halphanum))] at hblank
      cases hblank

/-- A standard tag is read with its attributes. -/
theorem standardTag_text (hstandard : tag.name ∈ standardTags) (h : '>' ∉ tag.written)
    (after : Text) :
    standardTag (tag.text ++ after) = some ({ name := tag.name, attributes := tag.written },
      tag.text.length) := by
  obtain ⟨inside, hrest, hattributes⟩ := tag.tagRest?_inside h after
  have htext : tag.text ++ after = '<' :: (tag.name ++ (tag.inside ++ '>' :: after)) := by
    simp only [text, List.cons_append, List.append_assoc, List.nil_append]
  have hlength : tag.name.length + (tag.inside.length + 1) + 1 = tag.text.length := by
    simp only [text, List.length_cons, List.length_append, List.length_nil]
  rw [htext, standardTag_cons_append tag.isNameChar_of_mem (tag.isAlphanum_head_inside after),
    if_pos hstandard, hrest, Option.map_some]
  dsimp only
  rw [hattributes, hlength]

end OpeningTag

/-- An angle bracket does not stand in text without one. -/
theorem not_isInfix_append {mark left right : Text} (hleft : '<' ∉ left)
    (hright : ¬('<' :: mark) <:+: right) :
    ¬('<' :: mark) <:+: left ++ right := by
  induction left with
  | nil => exact hright
  | cons c left ih =>
    rw [List.mem_cons, not_or] at hleft
    rw [List.cons_append, List.infix_cons_iff, not_or]
    refine ⟨fun hstarts => ?_, ih hleft.2⟩
    exact hleft.1 (List.cons_prefix_cons.mp hstarts).1

/-- A standard tag opens in no attribute if it opens in no value. -/
private theorem not_isInfix_attributes {attributes : List TagAttribute} {mark rest : Text}
    (hmark : ∀ c ∈ mark, c.isAlphanum = true)
    (hvalues : ∀ value ∈ attributes.filterMap TagAttribute.value, ¬('<' :: mark) <:+: value.text)
    (hrest : ¬('<' :: mark) <:+: rest) :
    ¬('<' :: mark) <:+: attributes.flatMap TagAttribute.text ++ rest := by
  induction attributes with
  | nil => exact hrest
  | cons attr attributes ih =>
    have hspace : '<' ∉ attr.space := fun hm => absurd (attr.isBlank_of_mem '<' hm) (by decide)
    have hname : '<' ∉ attr.name := by
      intro hm
      exact absurd (toNat_of_isNameChar (attr.isNameChar_of_mem '<' hm)) (by decide)
    rw [List.flatMap_cons, TagAttribute.text, List.append_assoc, List.append_assoc,
      List.append_assoc]
    refine not_isInfix_append hspace (not_isInfix_append hname ?_)
    cases hform : attr.value with
    | none =>
      rw [List.filterMap_cons_none hform] at hvalues
      exact ih hvalues
    | some value =>
      rw [List.filterMap_cons_some hform, List.forall_mem_cons] at hvalues
      have hquote : value.quote ∉ '<' :: mark := by
        intro hm
        rcases value.isQuote with he | he <;> rw [he, List.mem_cons] at hm <;>
          exact hm.elim (by decide) fun hm => absurd (hmark _ hm) (by decide)
      have hsigns : '<' ∉ ['=', value.quote] := by
        rcases value.isQuote with he | he <;> rw [he] <;> decide
      have htext : '=' :: value.quote :: (value.text ++ [value.quote]) ++
          (attributes.flatMap TagAttribute.text ++ rest) =
            ['=', value.quote] ++
              (value.text ++ value.quote :: (attributes.flatMap TagAttribute.text ++ rest)) := by
        simp only [List.cons_append, List.append_assoc, List.nil_append]
      rw [htext]
      apply not_isInfix_append hsigns
      rw [Text.isInfix_append_cons_iff hquote, not_or]
      exact ⟨hvalues.1, ih hvalues.2⟩

namespace OpeningTag

variable (tag : OpeningTag)

/-- Behind its angle bracket a tag opens no standard tag if its values open none. -/
private theorem not_isInfix_inside {mark : Text} (hmark : ∀ c ∈ mark, c.isAlphanum = true)
    (h : ∀ value ∈ tag.values, ¬('<' :: mark) <:+: value.text) :
    ¬('<' :: mark) <:+: tag.name ++ (tag.inside ++ ['>']) := by
  have hname : '<' ∉ tag.name := fun hm => (tag.isNameChar_of_mem '<' hm).2.1 rfl
  have hend : '<' ∉ tag.trailing ++ ((if tag.selfClosing then ['/'] else []) ++ ['>']) := by
    rw [List.mem_append, not_or]
    refine ⟨fun hm => absurd (tag.isBlank_of_mem '<' hm) (by decide), ?_⟩
    cases tag.selfClosing <;> decide
  have hfree :
      ¬('<' :: mark) <:+: tag.trailing ++ ((if tag.selfClosing then ['/'] else []) ++ ['>']) :=
    fun hholds => hend (hholds.subset List.mem_cons_self)
  rw [inside, written, List.append_assoc, List.append_assoc]
  exact not_isInfix_append hname (not_isInfix_attributes hmark h hfree)

/-- In another tag no standard tag is read. -/
theorem standardTag_eq_none (hother : tag.name ∉ standardTags)
    (h : ∀ value ∈ tag.values, ∀ name ∈ standardTags, ¬('<' :: name) <:+: value.text) (after : Text)
    {c : Char} {rest : Text} (hsuffix : c :: rest <:+ tag.text) :
    standardTag (c :: (rest ++ after)) = none := by
  rcases List.suffix_cons_iff.mp hsuffix with he | hsuffix
  · obtain ⟨rfl, rfl⟩ := List.cons.inj he
    have htext : tag.name ++ (tag.inside ++ ['>']) ++ after =
        tag.name ++ (tag.inside ++ '>' :: after) := by
      simp only [List.append_assoc, List.cons_append, List.nil_append]
    rw [htext, standardTag_cons_append tag.isNameChar_of_mem (tag.isAlphanum_head_inside after),
      if_neg hother]
  · by_cases hc : c = '<'
    · subst hc
      apply standardTag_of_not_prefix
      intro name hname hstarts
      have hmark := isAlphanum_of_mem_standardTags name hname
      have hbracket : '>' ∉ name := fun hm => absurd (hmark '>' hm) (by decide)
      rw [← List.append_assoc] at hsuffix
      obtain he | ⟨front, he, hfront⟩ := List.suffix_concat_iff.mp hsuffix
      · cases he
      · cases front with
        | nil => cases he
        | cons d front =>
          -- the name stands before the end of the tag, so it stands in the tag
          rw [List.cons_append, List.cons.injEq] at he
          obtain ⟨rfl, rfl⟩ := he
          rw [List.append_assoc, List.singleton_append, Text.isPrefix_append_cons_iff hbracket]
            at hstarts
          have hholds : '<' :: name <:+: tag.name ++ (tag.inside ++ ['>']) := by
            rw [← List.append_assoc]
            exact ((List.cons_prefix_cons.mpr ⟨rfl, hstarts⟩).isInfix.trans hfront.isInfix).trans
              (List.prefix_append _ _).isInfix
          exact tag.not_isInfix_inside hmark (fun value hvalue => h value hvalue name hname) hholds
    · exact standardTag_of_ne hc _

end OpeningTag

/-! ## Reading markup -/

/-- The standard tag that a piece is, with its attributes. -/
def MarkupPiece.standard? : MarkupPiece → Option StandardTag
  | .opening tag =>
    if standardTags.contains tag.name then some { name := tag.name, attributes := tag.written }
    else none
  | _ => none

theorem OpeningTag.standard?_of_mem {tag : OpeningTag} (h : tag.name ∈ standardTags) :
    (MarkupPiece.opening tag).standard? = some { name := tag.name, attributes := tag.written } :=
  if_pos (List.contains_iff_mem.mpr h)

theorem OpeningTag.standard?_of_not_mem {tag : OpeningTag} (h : tag.name ∉ standardTags) :
    (MarkupPiece.opening tag).standard? = none :=
  if_neg (mt List.contains_iff_mem.mp h)

/-- In a closing tag no standard tag is read. -/
theorem standardTag_closing_eq_none {name : Text} (hname : ∀ c ∈ name, c ≠ '<' ∧ c ≠ '>')
    (after : Text) {c : Char} {rest : Text}
    (hsuffix : c :: rest <:+ '<' :: '/' :: (name ++ ['>'])) :
    standardTag (c :: (rest ++ after)) = none := by
  rcases List.suffix_cons_iff.mp hsuffix with he | hsuffix
  · obtain ⟨rfl, rfl⟩ := List.cons.inj he
    have hslash : ∀ d ∈ ('/' :: (name ++ ['>']) ++ after).head?, d.isAlphanum = false := by
      intro d hd
      rw [← Option.some.inj hd]
      rfl
    have hempty : [] ∉ standardTags := by decide +kernel
    have hnothing : ∀ d ∈ ([] : Text), isBlank d = false ∧ d ≠ '<' ∧ d ≠ '>' ∧ d ≠ '/' :=
      fun d hd => absurd hd List.not_mem_nil
    exact (standardTag_cons_append hnothing hslash).trans (if_neg hempty)
  · apply standardTag_of_ne
    rintro rfl
    have hmem := hsuffix.subset List.mem_cons_self
    simp only [List.mem_cons, List.mem_append, List.not_mem_nil, or_false] at hmem
    rcases hmem with he | hmem | he
    · cases he
    · exact (hname '<' hmem).1 rfl
    · cases he

/-- The standard tags are read one after the other. -/
theorem values_standardTag_markup {pieces : List MarkupPiece}
    (h : ∀ tag, .opening tag ∈ pieces → tag.Undisturbed) :
    values (segments standardTag (markup pieces)) = pieces.filterMap MarkupPiece.standard? := by
  induction pieces with
  | nil => rfl
  | cons piece pieces ih =>
    have hrest := ih fun tag htag => h tag (List.mem_cons_of_mem _ htag)
    rw [markup, List.flatMap_cons, ← markup]
    cases piece with
    | text chars hchars =>
      refine (values_segments_of_none fun c tail hsuffix => ?_).trans hrest
      exact standardTag_of_ne (hchars c (hsuffix.subset List.mem_cons_self)).1 _
    | closing name hname =>
      refine (values_segments_of_none fun c tail hsuffix => ?_).trans hrest
      exact standardTag_closing_eq_none hname (markup pieces) hsuffix
    | opening tag =>
      have htag := h tag List.mem_cons_self
      by_cases hstandard : tag.name ∈ standardTags
      · have hfree : ∀ c ∈ tag.written, c ≠ '>' := by
          apply tag.forall_mem_written (p := (· ≠ '>'))
          · rintro c hblank rfl
            cases hblank
          · rintro c hname rfl
            exact absurd (toNat_of_isNameChar hname) (by decide)
          · decide
          · decide
          · decide
          · rintro value hvalue c hc rfl
            exact htag.standard hstandard value hvalue hc
        have hread := tag.standardTag_text hstandard (fun hm => hfree '>' hm rfl) (markup pieces)
        rw [List.filterMap_cons_some (OpeningTag.standard?_of_mem hstandard), ← hrest]
        exact values_segments_append (List.cons_ne_nil _ _) hread
      · rw [List.filterMap_cons_none (OpeningTag.standard?_of_not_mem hstandard), ← hrest]
        apply values_segments_of_none
        intro c tail hsuffix
        exact tag.standardTag_eq_none hstandard (htag.other hstandard) (markup pieces) hsuffix

end ComponentFile.Validation
