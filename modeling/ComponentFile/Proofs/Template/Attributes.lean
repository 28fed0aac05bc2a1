import ComponentFile.Proofs.Directive.Spelling
import ComponentFile.Proofs.Template.Component
import Mathlib.Data.List.DropRight

/-!
# Written attributes

The inside of a tag that lists attributes in the usual way reads back as these attributes, and a
placeholder in it stands in a quoted value, since it holds white space and angle brackets.
-/

namespace ComponentFile

namespace Template

/-! ## Reading attributes -/

/-- White space before the attributes is passed over. -/
theorem attributeList_dropWhile (text : Text) :
    attributeList (text.dropWhile isSpace) = attributeList text := by
  rw [attributeList.eq_def, attributeList.eq_def text, List.dropWhile_idempotent]

/-- A character of a written name. -/
def isNameChar (c : Char) : Bool := isAttributeChar c && c != '"' && c != '\'' && c != '>'

/-- A character of a written value without quotes. -/
def isPlainChar (c : Char) : Bool := !isSpace c && c != '"' && c != '\'' && c != '>'

/-- How the value of an attribute is written. -/
inductive AttributeForm where
  /-- A bare name. -/
  | flag
  /-- A value in quotes. -/
  | quoted (quote : Char) (value : Text) (isQuote : quote = '"' ∨ quote = '\'')
      (free : quote ∉ value)
  /-- A value without quotes. -/
  | plain (value : Text) (ne_nil : value ≠ []) (chars : ∀ c ∈ value, isPlainChar c = true)

/-- The text after the name. -/
def AttributeForm.text : AttributeForm → Text
  | .flag => []
  | .quoted quote value _ _ => '=' :: quote :: value ++ [quote]
  | .plain value _ _ => '=' :: value

/-- The value that is written. -/
def AttributeForm.value : AttributeForm → AttributeValue
  | .flag => .flag
  | .quoted _ value _ _ => .text value
  | .plain value _ _ => .text value

/-- An attribute as it is written in a tag, with the white space before it. -/
structure WrittenAttribute where
  space : Text
  name : Text
  form : AttributeForm
  space_ne_nil : space ≠ []
  isSpace_of_mem : ∀ c ∈ space, isSpace c = true
  name_ne_nil : name ≠ []
  isNameChar_of_mem : ∀ c ∈ name, isNameChar c = true

namespace WrittenAttribute

/-- The text of an attribute. -/
def text (written : WrittenAttribute) : Text := written.space ++ written.name ++ written.form.text

/-- The name and the value of an attribute. -/
def entry (written : WrittenAttribute) : Text × AttributeValue := (written.name, written.form.value)

end WrittenAttribute

/-- The text of a list of attributes and the white space behind them. -/
def attributesText (attributes : List WrittenAttribute) (trailing : Text) : Text :=
  attributes.flatMap WrittenAttribute.text ++ trailing

@[simp] theorem attributesText_nil (trailing : Text) : attributesText [] trailing = trailing := rfl

@[simp] theorem attributesText_cons (written : WrittenAttribute)
    (attributes : List WrittenAttribute) (trailing : Text) :
    attributesText (written :: attributes) trailing =
        written.text ++ attributesText attributes trailing := by
  simp only [attributesText, List.flatMap_cons, List.append_assoc]

/-- The text can follow an attribute: it has white space in front, and then no equals sign. -/
structure FollowsAttribute (rest : Text) : Prop where
  isSpace_head : ∀ c ∈ rest.head?, isSpace c = true
  ne_equals : ∀ c ∈ (rest.dropWhile isSpace).head?, c ≠ '='

/-- White space at the front is dropped. -/
theorem dropWhile_isSpace_append {space : Text} (h : ∀ c ∈ space, isSpace c = true) (rest : Text) :
    (space ++ rest).dropWhile isSpace = rest.dropWhile isSpace := by
  rw [List.dropWhile_append_of_pos h]

/-- Names hold no white space, no equals sign and no slash. -/
theorem isAttributeChar_of_isNameChar {c : Char} (h : isNameChar c = true) :
    isAttributeChar c = true := by
  simp only [isNameChar, Bool.and_eq_true] at h
  exact h.1.1.1

/-- A character of a name is not white space. -/
theorem isSpace_eq_false_of_isAttributeChar {c : Char} (h : isAttributeChar c = true) :
    isSpace c = false := by
  simp only [isAttributeChar, Bool.not_eq_true', Bool.or_eq_false_iff] at h
  exact h.1.1

private theorem followsAttribute_attributesText (attributes : List WrittenAttribute)
    {trailing : Text} (h : ∀ c ∈ trailing, isSpace c = true) :
    FollowsAttribute (attributesText attributes trailing) := by
  cases attributes with
  | nil =>
    refine ⟨fun c hc => h c (List.mem_of_mem_head? hc), fun c hc => ?_⟩
    rw [attributesText_nil, List.dropWhile_eq_nil_iff.mpr h] at hc
    cases hc
  | cons written attributes =>
    obtain ⟨s, space, hspace⟩ := List.exists_cons_of_ne_nil written.space_ne_nil
    obtain ⟨n, name, hname⟩ := List.exists_cons_of_ne_nil written.name_ne_nil
    have hn : isAttributeChar n = true :=
      isAttributeChar_of_isNameChar (written.isNameChar_of_mem n (hname ▸ List.mem_cons_self))
    constructor
    · intro c hc
      rw [attributesText_cons, WrittenAttribute.text, hspace] at hc
      rw [← Option.some.inj hc]
      exact written.isSpace_of_mem s (hspace ▸ List.mem_cons_self)
    · intro c hc
      rw [attributesText_cons, WrittenAttribute.text, List.append_assoc, List.append_assoc,
        dropWhile_isSpace_append written.isSpace_of_mem, hname, List.cons_append,
        List.dropWhile_cons_of_neg (by simp [isSpace_eq_false_of_isAttributeChar hn])] at hc
      rw [← Option.some.inj hc]
      rintro rfl
      revert hn
      decide

private theorem attributeValue_quoted {quote : Char} {value : Text}
    (hquote : quote = '"' ∨ quote = '\'') (hfree : quote ∉ value) (rest : Text) :
    attributeValue (quote :: value ++ [quote] ++ rest) = (value, rest) := by
  have hspace : isSpace quote = false := by rcases hquote with rfl | rfl <;> decide
  have hcut : Text.cut? [quote] (value ++ [quote] ++ rest) = some (value, rest) :=
    Text.cut?_of_not_mem hfree
  rw [attributeValue, List.append_assoc, List.cons_append,
    List.dropWhile_cons_of_neg (by simp [hspace])]
  dsimp only
  rw [if_pos hquote, ← List.append_assoc, hcut]
  rfl

private theorem attributeValue_plain {value : Text} (hne : value ≠ [])
    (hchars : ∀ c ∈ value, isPlainChar c = true) {rest : Text}
    (hrest : ∀ c ∈ rest.head?, isSpace c = true) :
    attributeValue (value ++ rest) = (value, rest) := by
  have hspace (c : Char) (hc : c ∈ value) : isSpace c = false := by
    have hplain := hchars c hc
    simp only [isPlainChar, Bool.and_eq_true, Bool.not_eq_true'] at hplain
    exact hplain.1.1.1
  obtain ⟨c, tail, rfl⟩ := List.exists_cons_of_ne_nil hne
  have hquote : ¬(c = '"' ∨ c = '\'') := by
    have hplain := hchars c List.mem_cons_self
    rintro (rfl | rfl) <;> revert hplain <;> decide
  have hstop : ∀ c ∈ rest.head?, (!isSpace c) = false := fun c hc => by simp [hrest c hc]
  rw [attributeValue, List.cons_append,
    List.dropWhile_cons_of_neg (by simp [hspace c List.mem_cons_self])]
  dsimp only
  rw [if_neg hquote, ← List.cons_append]
  have hall : ∀ d ∈ c :: tail, (!isSpace d) = true := fun d hd => by simp [hspace d hd]
  rw [List.takeWhile_append_of_pos hall, List.dropWhile_append_of_pos hall,
    Text.takeWhile_of_head hstop, Text.dropWhile_of_head hstop, List.append_nil]

section

variable {space name : Text} (hspace : ∀ c ∈ space, isSpace c = true) (hne : name ≠ [])
  (hname : ∀ c ∈ name, isNameChar c = true)

include hspace hne hname

/-- A name starts an attribute, which the text after it decides on. -/
private theorem attributeList_name {rest : Text}
    (hrest : ∀ c ∈ rest.head?, isAttributeChar c = false) :
    attributeList (space ++ name ++ rest) =
      match rest.dropWhile isSpace with
      | '=' :: value =>
        (name, .text (attributeValue value).1) :: attributeList (attributeValue value).2
      | after => (name, .flag) :: attributeList after := by
  obtain ⟨c, tail, rfl⟩ := List.exists_cons_of_ne_nil hne
  have hchar (d : Char) (hd : d ∈ c :: tail) : isAttributeChar d = true :=
    isAttributeChar_of_isNameChar (hname d hd)
  have hc := hchar c List.mem_cons_self
  have htail (d : Char) (hd : d ∈ tail) := hchar d (List.mem_cons_of_mem _ hd)
  have hstart : (space ++ c :: tail ++ rest).dropWhile isSpace = c :: (tail ++ rest) := by
    rw [List.append_assoc, dropWhile_isSpace_append hspace, List.cons_append,
      List.dropWhile_cons_of_neg (by simp [isSpace_eq_false_of_isAttributeChar hc])]
  have htake : (tail ++ rest).takeWhile isAttributeChar = tail := by
    rw [List.takeWhile_append_of_pos htail, Text.takeWhile_of_head hrest, List.append_nil]
  have hdrop : (tail ++ rest).dropWhile isAttributeChar = rest := by
    rw [List.dropWhile_append_of_pos htail, Text.dropWhile_of_head hrest]
  rw [attributeList]
  split
  · next hnil => rw [hstart] at hnil; cases hnil
  next d found hfound =>
  rw [hstart] at hfound
  obtain ⟨rfl, rfl⟩ := List.cons.inj hfound
  rw [if_pos hc]
  rw [htake]
  split
  · next value hvalue =>
    rw [hdrop] at hvalue
    simp only [hvalue]
  · next hother =>
    rw [hdrop] at hother ⊢
    split
    · next value hvalue => exact absurd hvalue (hother value)
    · rfl

end

private theorem attributeList_text_append (written : WrittenAttribute) {rest : Text}
    (h : FollowsAttribute rest) :
    attributeList (written.text ++ rest) = written.entry :: attributeList rest := by
  have hequals (value : Text) : ∀ c ∈ ('=' :: value).head?, isAttributeChar c = false := by
    intro c hc
    rw [← Option.some.inj hc]
    decide
  obtain ⟨space, name, form, -, hspace, hne, hname⟩ := written
  have hread {rest : Text} (hrest : ∀ c ∈ rest.head?, isAttributeChar c = false) :=
    attributeList_name hspace hne hname hrest
  simp only [WrittenAttribute.text, WrittenAttribute.entry, List.append_assoc] at hread ⊢
  cases form with
  | flag =>
    rw [AttributeForm.text, List.nil_append, hread fun c hc => ?_]
    · split
      · next value hvalue =>
        exact absurd rfl (h.ne_equals '=' (by rw [hvalue]; rfl))
      · rw [attributeList_dropWhile]
        rfl
    · simp [isAttributeChar, h.isSpace_head c hc]
  | quoted quote value hquote hfree =>
    have hvalue := attributeValue_quoted hquote hfree rest
    rw [List.cons_append, List.cons_append] at hvalue
    simp only [AttributeForm.text, List.cons_append]
    rw [hread (hequals _)]
    simp only [List.dropWhile_cons_of_neg (show ¬isSpace '=' = true by decide), hvalue]
    rfl
  | plain value hne hchars =>
    simp only [AttributeForm.text, List.cons_append]
    rw [hread (hequals _)]
    simp only [List.dropWhile_cons_of_neg (show ¬isSpace '=' = true by decide),
      attributeValue_plain hne hchars h.isSpace_head]
    rfl

/-- Attributes are read back from their text. -/
theorem attributeList_attributesText (attributes : List WrittenAttribute) {trailing : Text}
    (h : ∀ c ∈ trailing, isSpace c = true) :
    attributeList (attributesText attributes trailing) = attributes.map WrittenAttribute.entry := by
  induction attributes with
  | nil =>
    rw [attributesText_nil, ← attributeList_dropWhile, List.dropWhile_eq_nil_iff.mpr h,
      attributeList]
    rfl
  | cons written attributes ih =>
    rw [attributesText_cons,
      attributeList_text_append written (followsAttribute_attributesText attributes h), ih,
      List.map_cons]

/-! ## Placeholders in tags -/

private theorem not_mem_references_of_not_mem {placeholder : Placeholder} {text : Text}
    (h : '>' ∉ text) :
    placeholder ∉ Placeholder.references text := by
  intro hp
  obtain ⟨piece, hs, hpiece⟩ := Placeholder.mem_references_iff.mp hp
  obtain ⟨inner, rfl, -⟩ := hs.edges
  exact h (hpiece.subset (List.mem_cons_of_mem _ (List.mem_append_right _ List.mem_cons_self)))

/-- White space, names and plain values hold no angle bracket. -/
private theorem gt_not_mem_of_forall {p : Char → Bool} {text : Text} (h : ∀ c ∈ text, p c = true)
    (hgt : p '>' = false) : '>' ∉ text := by
  intro hm
  rw [h _ hm] at hgt
  cases hgt

/-- What is mentioned in a list of attributes is mentioned in a value. The list may stand behind a
text without angle brackets. -/
theorem exists_value_of_mem_references {placeholder : Placeholder}
    {attributes : List WrittenAttribute} {lead trailing : Text}
    (htrailing : ∀ c ∈ trailing, isSpace c = true) (hlead : '>' ∉ lead)
    (h : placeholder ∈ Placeholder.references (lead ++ attributesText attributes trailing)) :
    ∃ value ∈ valueTexts (attributes.map WrittenAttribute.entry),
      placeholder ∈ Placeholder.references value := by
  induction attributes generalizing lead with
  | nil =>
    refine absurd h (not_mem_references_of_not_mem ?_)
    rw [attributesText_nil, List.mem_append, not_or]
    exact ⟨hlead, gt_not_mem_of_forall htrailing (by decide)⟩
  | cons written attributes ih =>
    obtain ⟨space, name, form, _, hspace, _, hname⟩ := written
    have hfront : '>' ∉ lead ++ space ++ name := by
      simp only [List.mem_append, not_or]
      exact ⟨⟨hlead, gt_not_mem_of_forall hspace (by decide)⟩,
        gt_not_mem_of_forall hname (by decide)⟩
    simp only [attributesText_cons, WrittenAttribute.text] at h
    -- Text outside quotes joins what stands before it; at quotes the text falls apart.
    cases form with
    | flag =>
      refine ih hfront ?_
      simpa only [AttributeForm.text, List.append_nil, List.append_assoc] using h
    | plain value hne hchars =>
      have hplain : '>' ∉ lead ++ space ++ name ++ '=' :: value := by
        rw [List.mem_append, List.mem_cons, not_or, not_or]
        exact ⟨hfront, by decide, gt_not_mem_of_forall hchars (by decide)⟩
      obtain ⟨found, hfound, hm⟩ := ih hplain (by
        simpa only [AttributeForm.text, List.append_assoc] using h)
      exact ⟨found, List.mem_cons_of_mem _ hfound, hm⟩
    | quoted quote value hquote hfree =>
      have hspelling : Placeholder.isSpelling quote = false := by
        rcases hquote with rfl | rfl <;> decide
      have hsplit : lead ++ (space ++ name ++ ('=' :: quote :: value ++ [quote]) ++
          attributesText attributes trailing) = (lead ++ space ++ name ++ ['=']) ++
            quote :: (value ++ quote :: attributesText attributes trailing) := by
        simp only [List.append_assoc, List.cons_append, List.nil_append]
      rw [AttributeForm.text, hsplit, Placeholder.mem_references_append_cons_iff hspelling,
        Placeholder.mem_references_append_cons_iff hspelling] at h
      rcases h with h | h | h
      · refine absurd h (not_mem_references_of_not_mem ?_)
        rw [List.mem_append, List.mem_singleton, not_or]
        exact ⟨hfront, by decide⟩
      · exact ⟨value, List.mem_cons_self, h⟩
      · obtain ⟨found, hfound, hm⟩ := ih List.not_mem_nil h
        exact ⟨found, List.mem_cons_of_mem _ hfound, hm⟩

end Template

end ComponentFile
