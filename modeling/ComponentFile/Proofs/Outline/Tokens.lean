import ComponentFile.Proofs.Outline.Basic
import ComponentFile.Proofs.Template.Replacement
import ComponentFile.Proofs.Text.Trimming

/-!
# Tokens of a template

Everything a pass looks for starts with two opening braces. In the text of an outline such a place
is the start of a token, since neither markup nor the inside of a token holds a brace. So what a
pass does with a token is decided at its first character, and it passes over the rest (`Passes`).
-/

namespace ComponentFile.Template

/-! ## Passing over text -/

/-- At every place of the text `read` finds nothing, whatever follows the text. -/
def Passes {β : Type} (read : Text → Option β) (text : Text) : Prop :=
  ∀ tail rest, tail ≠ [] → tail <:+ text → read (tail ++ rest) = none

section

variable {β : Type} {read : Text → Option β}

/-- There is no place in an empty text. -/
theorem passes_nil (read : Text → Option β) : Passes read [] :=
  fun _ _ hne htail => absurd (List.suffix_nil.mp htail) hne

/-- The places of a text are its first one and those of the rest. -/
theorem passes_cons_iff {c : Char} {text : Text} :
    Passes read (c :: text) ↔ (∀ rest, read (c :: text ++ rest) = none) ∧ Passes read text := by
  constructor
  · intro h
    refine ⟨fun rest => h _ rest (List.cons_ne_nil _ _) (List.suffix_refl _), ?_⟩
    exact fun tail rest hne htail => h tail rest hne (htail.trans (List.suffix_cons _ _))
  · rintro ⟨hfirst, hrest⟩ tail rest hne htail
    rcases List.suffix_cons_iff.mp htail with rfl | htail
    · exact hfirst rest
    · exact hrest tail rest hne htail

/-- Passing over two texts is passing over them in a row. -/
theorem Passes.append {left right : Text} (hleft : Passes read left) (hright : Passes read right) :
    Passes read (left ++ right) := by
  induction left with
  | nil => exact hright
  | cons c left ih =>
    obtain ⟨hfirst, hrest⟩ := passes_cons_iff.mp hleft
    refine passes_cons_iff.mpr ⟨fun rest => ?_, ih hrest⟩
    have hnone := hfirst (right ++ rest)
    rwa [List.cons_append, ← List.append_assoc] at hnone

/-- `read` finds something only where two opening braces stand. -/
def AtOpening (read : Text → Option β) : Prop :=
  ∀ text, Text.after? opening text = none → read text = none

/-- A text without opening braces is passed over. -/
theorem AtOpening.passes_of_not_mem (h : AtOpening read) {text : Text} (hfree : '{' ∉ text) :
    Passes read text := by
  intro tail rest hne htail
  obtain ⟨c, tail, rfl⟩ := List.exists_cons_of_ne_nil hne
  have hc : '{' ≠ c := fun he => hfree (htail.subset (he ▸ List.mem_cons_self))
  exact h _ (by simp only [opening, List.cons_append, Text.after?, if_neg hc])

/-- Only the first of two opening braces is followed by another one. -/
theorem AtOpening.passes_tail (h : AtOpening read) {inner : Text} (hne : inner ≠ [])
    (hfree : '{' ∉ inner) : Passes read ('{' :: (inner ++ closing)) := by
  obtain ⟨c, inner, rfl⟩ := List.exists_cons_of_ne_nil hne
  have hc : '{' ≠ c := fun he => hfree (he ▸ List.mem_cons_self)
  have hsecond (rest : Text) :
      Text.after? opening ('{' :: (c :: inner ++ closing ++ rest)) = none := by
    simp only [opening, List.cons_append, Text.after?, if_true, if_neg hc]
  have hinner : '{' ∉ (c :: inner) ++ closing := by
    rw [List.mem_append, not_or]
    exact ⟨hfree, by decide⟩
  exact passes_cons_iff.mpr ⟨fun rest => h _ (hsecond rest), h.passes_of_not_mem hinner⟩

/-- A pair of braces with something inside is passed over unless it is found at its first
character. -/
theorem AtOpening.passes_braces (h : AtOpening read) {inner : Text} (hne : inner ≠ [])
    (hfree : '{' ∉ inner) (hnone : ∀ rest, read (opening ++ inner ++ closing ++ rest) = none) :
    Passes read (opening ++ inner ++ closing) :=
  passes_cons_iff.mpr ⟨hnone, h.passes_tail hne hfree⟩

end

/-! ## Keywords -/

/-- A mark that starts with two opening braces is found only there. -/
theorem atOpening_after? (mark : Text) : AtOpening (Text.after? (opening ++ mark)) := by
  intro text hnone
  cases h : Text.after? (opening ++ mark) text with
  | none => rfl
  | some rest =>
    rw [Text.after?_eq_some_iff.mp h, List.append_assoc, Text.after?_append] at hnone
    cases hnone

/-- Without its keyword there is no header. -/
theorem header?_eq_none {keyword text : Text} (h : Text.after? keyword text = none) :
    header? keyword text = none := by
  simp only [header?, h, Option.bind_eq_bind, Option.bind_none]

/-- A header is what stands between its keyword and the next closing braces. -/
theorem header?_append (keyword : Text) {inner : Text} (hfree : '}' ∉ inner)
    (hspace : ∀ c ∈ inner.head?, isSpace c = true) (rest : Text) :
    header? keyword (keyword ++ inner ++ closing ++ rest) = some (inner, rest) := by
  have hcut : Text.cut? closing (inner ++ closing ++ rest) = some (inner, rest) :=
    Text.cut?_of_not_mem hfree
  rw [header?, List.append_assoc, List.append_assoc, Text.after?_append, ← List.append_assoc]
  cases inner with
  | nil => exact hcut
  | cons c inner =>
    have hc : (isSpace c || c == '}') = true := by rw [hspace c rfl, Bool.true_or]
    simp only [List.cons_append] at hcut ⊢
    simp only [Option.bind_eq_bind, Option.bind_some, hc, if_true, hcut]

/-- Without a keyword of conditionals there is no token of a conditional. -/
theorem conditionalToken_eq_none {text : Text} (hclosing : Text.after? ifClosing text = none)
    (hif : Text.after? ifKeyword text = none) (helseIf : Text.after? elseIfKeyword text = none)
    (helse : Text.after? elseKeyword text = none) : conditionalToken text = none := by
  simp only [conditionalToken, Text.startsWith, hclosing, Option.isSome_none, Bool.false_eq_true,
    if_false, header?_eq_none hif, header?_eq_none helseIf, header?_eq_none helse]

/-- Without its keyword there is no raw markup. -/
theorem rawMarkup_eq_none {text : Text} (h : Text.after? rawKeyword text = none) :
    rawMarkup text = none := by
  simp only [rawMarkup, header?_eq_none h, Option.bind_eq_bind, Option.bind_none]

/-- Tokens of conditionals start with two opening braces. -/
theorem atOpening_conditionalToken : AtOpening conditionalToken := fun text h =>
  conditionalToken_eq_none (atOpening_after? ['/', 'i', 'f', '}', '}'] text h)
    (atOpening_after? ['@', 'i', 'f'] text h)
    (atOpening_after? [':', 'e', 'l', 's', 'e', 'i', 'f'] text h)
    (atOpening_after? [':', 'e', 'l', 's', 'e'] text h)

/-- Raw markup starts with two opening braces. -/
theorem atOpening_rawMarkup : AtOpening rawMarkup := fun text h =>
  rawMarkup_eq_none (atOpening_after? ['@', 'h', 't', 'm', 'l'] text h)

/-- The token that ends a loop starts with two opening braces. -/
theorem atOpening_eachClosing : AtOpening (Text.after? eachClosing) :=
  atOpening_after? ['/', 'e', 'a', 'c', 'h', '}', '}']

/-- The keyword of loops starts with two opening braces. -/
theorem atOpening_eachKeyword : AtOpening (Text.after? eachKeyword) :=
  atOpening_after? ['@', 'e', 'a', 'c', 'h']

/-- Interpolations start with two opening braces. -/
theorem atOpening_interpolation : AtOpening interpolation := by
  intro text h
  simp only [interpolation, h, Option.bind_eq_bind, Option.bind_none]

/-! ## Interpolations are no blocks -/

/-- `read` finds something only where a sigil follows the opening braces. -/
def AtSigil {β : Type} (read : Text → Option β) : Prop :=
  ∀ inner, startsWithSigil inner = false → read (opening ++ inner) = none

/-- A mark with a sigil after its braces is found only at a sigil. -/
theorem atSigil_after? {sigil : Char} (h : startsWithSigil [sigil] = true) (mark : Text) :
    AtSigil (Text.after? (opening ++ sigil :: mark)) := by
  intro inner hinner
  cases inner with
  | nil => rfl
  | cons c inner =>
    have hne : sigil ≠ c := by
      rintro rfl
      rw [startsWithSigil] at h hinner
      rw [h] at hinner
      cases hinner
    simp only [opening, List.cons_append, List.nil_append, Text.after?, if_true, if_neg hne]

/-- Tokens of conditionals have a sigil. -/
theorem atSigil_conditionalToken : AtSigil conditionalToken := fun inner h =>
  conditionalToken_eq_none (atSigil_after? rfl ['i', 'f', '}', '}'] inner h)
    (atSigil_after? rfl ['i', 'f'] inner h)
      (atSigil_after? rfl ['e', 'l', 's', 'e', 'i', 'f'] inner h)
    (atSigil_after? rfl ['e', 'l', 's', 'e'] inner h)

/-- Raw markup has a sigil. -/
theorem atSigil_rawMarkup : AtSigil rawMarkup := fun inner h =>
  rawMarkup_eq_none (atSigil_after? rfl ['h', 't', 'm', 'l'] inner h)

/-- The token that ends a loop has a sigil. -/
theorem atSigil_eachClosing : AtSigil (Text.after? eachClosing) :=
  atSigil_after? rfl ['e', 'a', 'c', 'h', '}', '}']

/-- The keyword of loops has a sigil. -/
theorem atSigil_eachKeyword : AtSigil (Text.after? eachKeyword) :=
  atSigil_after? rfl ['e', 'a', 'c', 'h']

/-- A text that starts with a sigil still does so when trimmed. -/
private theorem startsWithSigil_eq_false {text : Text} (h : startsWithSigil text.trim = false) :
    startsWithSigil text = false := by
  cases text with
  | nil => rfl
  | cons c rest =>
    cases hc : startsWithSigil (c :: rest) with
    | false => rfl
    | true =>
      have hblank : isBlank c = false := by
        simp only [startsWithSigil, Bool.or_eq_true, beq_iff_eq] at hc
        rcases hc with (rfl | rfl) | rfl <;> decide
      have htrim : Text.trim (c :: rest) = c :: Text.trimEnd rest ∨
          Text.trim (c :: rest) = [c] := by
        rw [Text.trim, Text.trimStart, List.dropWhile_cons_of_neg (by simp [hblank])]
        cases hb : Text.isBlankText rest with
        | true =>
          refine Or.inr ((Text.trimEnd_append_of_blank [c] hb).trans ?_)
          simp [Text.trimEnd, hblank]
        | false => exact Or.inl (Text.trimEnd_append [c] hb)
      rcases htrim with he | he <;> rw [he] at h <;> exact absurd (h.symm.trans hc) (by decide)

/-! ## The tokens of an outline -/

section

variable {β : Type} {read : Text → Option β}

/-- An interpolation is passed over by what looks for sigils. -/
theorem passes_interpolation (h : AtOpening read) (hsigil : AtSigil read) {expression : Text}
    (hwell : (Insert.interpolation expression).WellFormed) :
    Passes read (Insert.interpolation expression).text := by
  obtain ⟨hblank, hfree, hstart⟩ := hwell
  have hne : expression ≠ [] := by
    rintro rfl
    cases hblank
  refine h.passes_braces hne hfree.1 fun rest => ?_
  have hnone := hsigil (expression ++ (closing ++ rest)) (by
    have hfirst := startsWithSigil_eq_false hstart
    obtain ⟨c, tail, rfl⟩ := List.exists_cons_of_ne_nil hne
    exact hfirst)
  rwa [← List.append_assoc, ← List.append_assoc] at hnone

/-- A token with a keyword is passed over unless it is found at its first character. -/
theorem AtOpening.passes_keyword (h : AtOpening read) {word inner : Text} (hne : word ≠ [])
    (hword : '{' ∉ word) (hinner : '{' ∉ inner)
    (hnone : ∀ rest, read (opening ++ word ++ rest) = none) :
    Passes read (opening ++ word ++ inner ++ closing) := by
  have hfree : '{' ∉ word ++ inner := by
    rw [List.mem_append, not_or]
    exact ⟨hword, hinner⟩
  have hpass := h.passes_braces (List.append_ne_nil_of_left_ne_nil hne inner) hfree fun rest => by
    have hnone := hnone (inner ++ closing ++ rest)
    simpa only [List.append_assoc] using hnone
  simpa only [List.append_assoc] using hpass

/-- A leaf is passed over by what looks for other sigils than that of raw markup. -/
theorem Insert.passes (h : AtOpening read) (hsigil : AtSigil read)
    (hraw : ∀ rest, read (rawKeyword ++ rest) = none) {insert : Insert}
    (hwell : insert.WellFormed) :
    Passes read insert.text := by
  cases insert with
  | char c => exact h.passes_of_not_mem hwell.1
  | interpolation expression => exact passes_interpolation h hsigil hwell
  | rawMarkup content =>
    have hfree : '{' ∉ ' ' :: content := by
      rw [List.mem_cons, not_or]
      exact ⟨by decide, hwell.2.1⟩
    exact h.passes_keyword (List.cons_ne_nil '@' ['h', 't', 'm', 'l']) (by decide) hfree hraw

/-- The inside of a loop token has no braces. -/
theorem LoopHeader.WellFormed.braceFree {header : LoopHeader} (h : header.WellFormed) :
    BraceFree header.inner := by
  have hindex : ∀ name ∈ header.indexName, BraceFree name :=
    fun name hm => (h.indexName name hm).braceFree
  obtain ⟨hiterable, hiterable'⟩ := h.iterable.braceFree
  obtain ⟨hitem, hitem'⟩ := h.item.braceFree
  unfold BraceFree LoopHeader.inner LoopHeader.binding
  cases hname : header.indexName with
  | none => simp [hiterable, hiterable', hitem, hitem']
  | some name =>
    obtain ⟨hfree, hfree'⟩ := hindex name hname
    simp [hiterable, hiterable', hitem, hitem', hfree, hfree']

/-- The token of a loop is passed over by what looks for other keywords. -/
theorem LoopHeader.WellFormed.passes (h : AtOpening read)
    (hnone : ∀ rest, read (eachKeyword ++ rest) = none) {header : LoopHeader}
    (hwell : header.WellFormed) : Passes read header.token :=
  h.passes_keyword (List.cons_ne_nil '@' ['e', 'a', 'c', 'h']) (by decide) hwell.braceFree.1 hnone

/-- The token that ends a loop is passed over by what looks for other tokens. -/
theorem passes_eachClosing (h : AtOpening read)
    (hnone : ∀ rest, read (eachClosing ++ rest) = none) :
    Passes read eachClosing :=
  h.passes_braces (List.cons_ne_nil '/' ['e', 'a', 'c', 'h']) (by decide) hnone

end

/-- The token of raw markup is read as its expression. -/
theorem rawMarkup_append {content : Text} (hwell : (Insert.rawMarkup content).WellFormed)
    (rest : Text) :
    rawMarkup ((Insert.rawMarkup content).text ++ rest) =
      some (content.trim, (Insert.rawMarkup content).text.length) := by
  have hfree : '}' ∉ ' ' :: content := by
    rw [List.mem_cons, not_or]
    exact ⟨by decide, hwell.2.2⟩
  have hheader := header?_append rawKeyword hfree (by simp [isSpace]) rest
  have htrim : Text.trim (' ' :: content) = content.trim := Text.trim_cons_of_blank rfl content
  simp only [rawMarkup, Insert.text, hheader, Option.bind_eq_bind, Option.bind_some,
    Text.isBlankText_cons, hwell.1, Bool.and_false, Bool.false_eq_true, if_false]
  exact congrArg some (Prod.ext htrim (by simp only [headerLength, List.length_append]))

/-- The token of an interpolation is read as its expression. -/
theorem interpolation_append {expression : Text}
    (hwell : (Insert.interpolation expression).WellFormed) (rest : Text) :
    interpolation ((Insert.interpolation expression).text ++ rest) =
      some (expression.trim, (Insert.interpolation expression).text.length) := by
  obtain ⟨hblank, ⟨_, hfree⟩, hsigil⟩ := hwell
  have hexpression : IsExpression expression := ⟨hblank, hsigil, hfree⟩
  exact hexpression.interpolation_append rest

end ComponentFile.Template
