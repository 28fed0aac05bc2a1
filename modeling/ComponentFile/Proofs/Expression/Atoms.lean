import ComponentFile.Proofs.Expression.Forms

/-!
# The outermost forms of atoms

Names, numerals and string literals hold no parentheses outside of strings, so they are neither
groups nor calls. A point makes a property of a path, but not of a numeral, where digits follow it,
and not of a string, where the closing quote comes last.
-/

namespace ComponentFile.Expression

open BinaryOperator

section

variable {phrase : Phrase} {text : Text} (h : Shape phrase text) (htight : phrase.isTight = true)
variable (hparens : matchingParens text = [])

include h htight hparens

/-- A tight phrase without parentheses in its code is a property if it can be cut like one. -/
private theorem formOf_of_splitProperty? {object name : Text}
    (hproperty : splitProperty? text = some (object, name)) :
    Form.of text = .property object name := by
  obtain ⟨hconditional, hbinary, hunary⟩ := h.splits_eq_none htight
  obtain ⟨hgroup, hcall⟩ := splitCall?_eq_none hparens
  rw [Form.of, hconditional, hbinary, hunary, hgroup, hcall, hproperty]

/-- Otherwise it is a constant if it can be read as one. -/
theorem formOf_of_literal? {value : Literal} (hproperty : splitProperty? text = none)
    (hliteral : literal? text = some value) : Form.of text = .literal value := by
  obtain ⟨hconditional, hbinary, hunary⟩ := h.splits_eq_none htight
  obtain ⟨hgroup, hcall⟩ := splitCall?_eq_none hparens
  rw [Form.of, hconditional, hbinary, hunary, hgroup, hcall, hproperty, hliteral]

private theorem formOf_of_isName (hproperty : splitProperty? text = none)
    (hliteral : literal? text = none) (hname : isName text = true) :
    Form.of text = .identifier text := by
  obtain ⟨hconditional, hbinary, hunary⟩ := h.splits_eq_none htight
  obtain ⟨hgroup, hcall⟩ := splitCall?_eq_none hparens
  rw [Form.of, hconditional, hbinary, hunary, hgroup, hcall, hproperty, hliteral]
  exact if_pos hname

end

/-- A text is no property when what follows its last point is no name. -/
theorem splitProperty?_eq_none {text : Text}
    (h : ∀ object name, Text.cutLast? ['.'] text = some (object, name) → isName name.trim = false) :
    splitProperty? text = none := by
  unfold splitProperty?
  split
  · rfl
  · cases hcut : Text.cutLast? ['.'] text with
    | none => rfl
    | some parts =>
      obtain ⟨object, name⟩ := parts
      simp only [Option.bind_eq_bind, Option.bind_some, h object name hcut, Bool.not_false,
        Bool.or_true, if_true]

/-! ## Numerals -/

/-- No name starts with a digit. -/
theorem isNameStart_of_isDigit {c : Char} (h : c.isDigit = true) : isNameStart c = false := by
  have hdigit := Text.toNat_of_isDigit h
  cases hname : isNameStart c with
  | false => rfl
  | true =>
    have hstart := toNat_of_isNameStart hname
    omega

/-- A text that starts with no quote is a truth value or a numeral, or no constant. -/
theorem literal?_of_not_quote {c : Char} {rest : Text} (hquote : isQuote c = false)
    (htruth : ∀ value, c :: rest ≠ truthName value) :
    literal? (c :: rest) = (number? (c :: rest)).map .number := by
  cases rest with
  | nil => rfl
  | cons d rest =>
    have htrue : c :: d :: rest ≠ ['t', 'r', 'u', 'e'] := htruth true
    have hfalse : c :: d :: rest ≠ ['f', 'a', 'l', 's', 'e'] := htruth false
    rw [literal?, hquote, Bool.false_and, if_neg Bool.false_ne_true, if_neg htrue, if_neg hfalse]

/-- Reads a numeral after its sign. -/
def unsignedNumber? (negative : Bool) (unsigned : Text) : Option Binary64 :=
  let (whole, fraction, wellFormed) := match Text.cut? ['.'] unsigned with
    | some (whole, fraction) => (whole, fraction, whole.isDigits && fraction.isDigits)
    | none => (unsigned, [], Text.isDigits unsigned)
  if wellFormed then
    some ⟨negative,
      Magnitude.ofDecimal (Text.digitsValue (whole ++ fraction)) (-(fraction.length : Int))⟩
  else none

private theorem number?_minus (unsigned : Text) :
    number? ('-' :: unsigned) = unsignedNumber? true unsigned := rfl

/-- A numeral without a sign is read as it stands. -/
theorem number?_of_ne {c : Char} (h : c ≠ '-') (rest : Text) :
    number? (c :: rest) = unsignedNumber? false (c :: rest) := by
  unfold number?
  split
  · next heq =>
    split at heq
    · next he => exact absurd (List.cons.inj he).1 h
    · obtain ⟨rfl, rfl⟩ := Prod.mk.inj heq
      rfl

/-- A numeral is read after its sign, or as it stands. -/
theorem number?_cases {text : Text} {value : Binary64} (h : number? text = some value) :
    ∃ negative unsigned, text = (if negative then ['-'] else []) ++ unsigned ∧
      unsignedNumber? negative unsigned = some value := by
  cases text with
  | nil => exact ⟨false, [], rfl, h⟩
  | cons c rest =>
    by_cases hminus : c = '-'
    · subst hminus
      exact ⟨true, rest, rfl, h⟩
    · rw [number?_of_ne hminus] at h
      exact ⟨false, c :: rest, rfl, h⟩

/-- What is read as a number after its sign is a numeral of the grammar. -/
theorem exists_of_unsignedNumber? {negative : Bool} {unsigned : Text} {value : Binary64}
    (h : unsignedNumber? negative unsigned = some value) :
    ∃ whole fraction, Text.isDigits whole = true ∧
      (∀ digits ∈ fraction, Text.isDigits digits = true) ∧
      unsigned = numeral false whole fraction ∧ value = numeralValue negative whole fraction := by
  unfold unsignedNumber? at h
  cases hcut : Text.cut? ['.'] unsigned with
  | none =>
    simp only [hcut, Option.ite_none_right_eq_some, Option.some.injEq] at h
    obtain ⟨hdigits, rfl⟩ := h
    exact ⟨unsigned, none, hdigits, nofun, (List.append_nil _).symm, rfl⟩
  | some parts =>
    obtain ⟨whole, fraction⟩ := parts
    simp only [hcut, Option.ite_none_right_eq_some, Bool.and_eq_true, Option.some.injEq] at h
    obtain ⟨⟨hwhole, hfraction⟩, rfl⟩ := h
    refine ⟨whole, some fraction, hwhole, fun digits hm => Option.some.inj hm ▸ hfraction, ?_, rfl⟩
    rw [Text.eq_of_cut?_eq_some hcut]
    exact List.append_assoc whole ['.'] fraction

/-- Names and digits hold no point. -/
theorem not_mem_of_isNamePart {text : Text} (h : ∀ c ∈ text, isNamePart c = true) : '.' ∉ text := by
  intro hm
  have hpoint := h '.' hm
  cases hpoint

theorem not_mem_of_isDigits {digits : Text} (h : Text.isDigits digits = true) : '.' ∉ digits :=
  not_mem_of_isNamePart (isNamePart_of_isDigits h).2

/-- Digits are no name. -/
theorem isName_trim_of_isDigits {digits : Text} (h : Text.isDigits digits = true) :
    isName digits.trim = false := by
  rw [Text.isDigits, Bool.and_eq_true] at h
  cases hname : digits.trim with
  | nil => rfl
  | cons c rest =>
    have hm : c ∈ digits := (Text.trim_isInfix digits).subset (hname ▸ List.mem_cons_self)
    rw [isName, isNameStart_of_isDigit (List.all_eq_true.mp h.2 c hm), Bool.false_and]

private theorem number?_of_isNameStart {c : Char} (h : isNameStart c = true) (rest : Text) :
    number? (c :: rest) = none := by
  have hminus : c ≠ '-' := by
    rintro rfl
    cases h
  have hpoint : '.' ≠ c := by
    rintro rfl
    cases h
  have hdigits (more : Text) : Text.isDigits (c :: more) = false := by
    cases hdigit : c.isDigit with
    | false => simp only [Text.isDigits, List.all_cons, hdigit, Bool.false_and, Bool.and_false]
    | true =>
      rw [isNameStart_of_isDigit hdigit] at h
      cases h
  have hcut : Text.cut? ['.'] (c :: rest) =
      (Text.cut? ['.'] rest).map fun parts => (c :: parts.1, parts.2) := by
    rw [Text.cut?, Text.after?, if_neg hpoint]
  rw [number?_of_ne hminus, unsignedNumber?, hcut]
  cases Text.cut? ['.'] rest with
  | none => simp only [Option.map_none, hdigits, Bool.false_eq_true, if_false]
  | some parts => simp only [Option.map_some, hdigits, Bool.false_and, Bool.false_eq_true, if_false]

section

variable {whole : Text} {fraction : Option Text} (hwhole : whole.isDigits = true)
variable (hfraction : ∀ digits ∈ fraction, Text.isDigits digits = true)

include hwhole hfraction

/-- A numeral without its sign is read as its number. -/
theorem unsignedNumber?_numeral (negative : Bool) :
    unsignedNumber? negative (numeral false whole fraction) =
      some (numeralValue negative whole fraction) := by
  cases fraction with
  | none =>
    have htext : numeral false whole none = whole := List.append_nil whole
    have hcut := Text.cut?_singleton_of_not_mem (not_mem_of_isDigits hwhole)
    simp only [htext, unsignedNumber?, hcut, hwhole, if_true]
    rfl
  | some digits =>
    have htext : numeral false whole (some digits) = whole ++ ['.'] ++ digits := by simp [numeral]
    have hcut : Text.cut? ['.'] (whole ++ ['.'] ++ digits) = some (whole, digits) :=
      Text.cut?_of_not_mem (not_mem_of_isDigits hwhole)
    simp only [htext, unsignedNumber?, hcut, hwhole, hfraction digits rfl, Bool.and_self, if_true]
    rfl

private theorem literal?_numeral (negative : Bool) :
    literal? (numeral negative whole fraction) =
      some (.number (numeralValue negative whole fraction)) := by
  obtain ⟨d, rest, hcons, hdigit⟩ := exists_numeral_eq_cons hwhole fraction
  have hvalue := unsignedNumber?_numeral hwhole hfraction negative
  cases negative with
  | true =>
    have hnumber : number? (numeral true whole fraction) =
        some (numeralValue true whole fraction) :=
      (number?_minus _).trans hvalue
    have hliteral : literal? (numeral true whole fraction) =
        (number? (numeral true whole fraction)).map .number :=
      literal?_of_not_quote rfl fun value => by cases value <;> exact fun he => nomatch he
    rw [hliteral, hnumber, Option.map_some]
  | false =>
    rw [hcons] at hvalue ⊢
    have hquote : isQuote d = false :=
      isQuote_of_isPlain (isPlain_of_isFiller
        (isFiller_of_mem_numeral hwhole hfraction d (hcons ▸ List.mem_cons_self)))
    have htruth (value : Bool) : d :: rest ≠ truthName value := by
      intro he
      cases value <;> rw [(List.cons.inj he).1] at hdigit <;> cases hdigit
    have hminus : d ≠ '-' := by
      rintro rfl
      cases hdigit
    rw [literal?_of_not_quote hquote htruth, number?_of_ne hminus, hvalue, Option.map_some]

private theorem splitProperty?_numeral (negative : Bool) :
    splitProperty? (numeral negative whole fraction) = none := by
  refine splitProperty?_eq_none fun object name hcut => ?_
  cases fraction with
  | none =>
    have hpoint : '.' ∉ numeral negative whole none := by
      cases negative <;> simp [numeral, not_mem_of_isDigits hwhole]
    rw [Text.cutLast?_eq_none hpoint] at hcut
    cases hcut
  | some digits =>
    have hdigits := hfraction digits rfl
    have hlast : Text.cutLast? ['.'] (numeral negative whole (some digits)) = some (_, digits) :=
      Text.cutLast?_of_not_mem (not_mem_of_isDigits hdigits)
    obtain ⟨-, rfl⟩ := Prod.mk.inj (Option.some.inj (hlast.symm.trans hcut))
    exact isName_trim_of_isDigits hdigits

/-- The outermost form of a numeral. -/
theorem formOf_numeral (negative : Bool) :
    Form.of (numeral negative whole fraction) =
      .literal (.number (numeralValue negative whole fraction)) := by
  have hfiller := isFiller_of_mem_numeral hwhole hfraction
  have hplain : ∀ c ∈ numeral negative whole fraction, isPlain c = true := by
    intro c hc
    cases negative with
    | false => exact isPlain_of_isFiller (hfiller c hc)
    | true =>
      rcases List.mem_cons.mp hc with rfl | hc
      · rfl
      · exact isPlain_of_isFiller (hfiller c hc)
  exact formOf_of_literal? (shape_numeral negative hwhole hfraction) rfl
    (matchingParens_of_isPlain hplain)
    (splitProperty?_numeral hwhole hfraction negative) (literal?_numeral hwhole hfraction negative)

end

/-! ## Truth values and string literals -/

/-- The outermost form of a truth value. -/
theorem formOf_truth (value : Bool) : Form.of (truthName value) = .literal (.bool value) := by
  cases value <;> rfl

/-- What follows the last point of a string literal holds its closing quote, so it is no name. -/
private theorem splitProperty?_quoted {quote : Char} (hquote : isQuote quote = true)
    (content : Text) :
    splitProperty? (quoted quote content) = none := by
  refine splitProperty?_eq_none fun object name hcut => ?_
  have htext : quote :: content ++ [quote] = object ++ ['.'] ++ name :=
    Text.eq_of_cutLast?_eq_some hcut
  have hm : quote ∈ name := by
    rcases List.eq_nil_or_concat' name with rfl | ⟨front, c, rfl⟩
    · rw [List.append_nil] at htext
      obtain ⟨rfl, -⟩ := List.cons.inj (List.append_inj' htext rfl).2
      cases hquote
    · rw [← List.append_assoc] at htext
      obtain ⟨rfl, -⟩ := List.cons.inj (List.append_inj' htext rfl).2
      exact List.mem_concat_self
  cases hname : isName name.trim with
  | false => rfl
  | true =>
    have hpart := (isNamePart_of_isName hname).2 quote
      (Text.mem_trim hm (isBlank_of_isQuote hquote))
    have hplain := isPlain_of_isFiller (isFiller_of_isNamePart hpart)
    rw [isQuote_of_isPlain hplain] at hquote
    cases hquote

private theorem literal?_quoted {quote : Char} (hquote : isQuote quote = true) (content : Text) :
    literal? (quoted quote content) = some (.string content) := by
  obtain ⟨c, rest, hcons⟩ := List.exists_cons_of_ne_nil (List.concat_ne_nil quote content)
  have hlast : (c :: rest).getLast? = some quote := hcons ▸ List.getLast?_concat
  have hfront : (c :: rest).dropLast = content := hcons ▸ List.dropLast_concat
  rw [quoted, hcons, literal?, hquote, hlast, Bool.true_and, beq_self_eq_true, if_pos rfl, hfront]

/-- The outermost form of a string literal. -/
theorem formOf_quoted {quote : Char} {content : Text} (hquote : isQuote quote = true)
    (hcontent : quote ∉ content) (hescape : '\\' ∉ content) :
    Form.of (quoted quote content) = .literal (.string content) :=
  formOf_of_literal? (Derives.string hquote hcontent hescape).shape rfl
    (matchingParens_quoted hquote hcontent hescape) (splitProperty?_quoted hquote content)
    (literal?_quoted hquote content)

/-! ## Paths -/

/-- A path is made of names, points and white space. -/
theorem Derives.isFiller_of_path {text : Text} {tree : Expression} (h : Derives .path text tree) :
    ∀ c ∈ text, isFiller c = true := by
  generalize hphrase : Phrase.path = phrase at h
  induction h with
  | name hname _ => exact fun c hc => isFiller_of_isNamePart ((isNamePart_of_isName hname).2 c hc)
  | property g₁ g₂ hname _ ih =>
    intro c hc
    simp only [List.mem_append, List.mem_cons] at hc
    rcases hc with (hc | hc) | rfl | hc | hc
    · exact ih rfl c hc
    · exact g₁.isFiller_of_mem hc
    · rfl
    · exact g₂.isFiller_of_mem hc
    · exact isFiller_of_isNamePart ((isNamePart_of_isName hname).2 c hc)
  | _ => cases hphrase

/-- A path holds no parentheses. -/
theorem Derives.matchingParens_of_path {text : Text} {tree : Expression}
    (h : Derives .path text tree) :
    matchingParens text = [] :=
  matchingParens_of_isPlain fun c hc => isPlain_of_isFiller (h.isFiller_of_path c hc)

/-- The outermost form of a name. -/
theorem formOf_name {name : Text} (hname : isName name = true)
    (htruth : ∀ value, name ≠ truthName value) :
    Form.of name = .identifier name := by
  have hpart := (isNamePart_of_isName hname).2
  have hproperty : splitProperty? name = none := by
    refine splitProperty?_eq_none fun object other hcut => ?_
    rw [Text.cutLast?_eq_none (not_mem_of_isNamePart hpart)] at hcut
    cases hcut
  have hliteral : literal? name = none := by
    cases name with
    | nil => cases hname
    | cons c rest =>
      rw [isName, Bool.and_eq_true] at hname
      have hplain := isPlain_of_isFiller (isFiller_of_isNamePart (hpart c List.mem_cons_self))
      rw [literal?_of_not_quote (isQuote_of_isPlain hplain) htruth, number?_of_isNameStart hname.1,
        Option.map_none]
  exact formOf_of_isName (shape_name hname) rfl
    (Derives.name hname htruth).matchingParens_of_path hproperty
    hliteral hname

/-- The outermost form of a property. -/
theorem formOf_property {object name : Text} {tree : Expression} (g₁ g₂ : Gap)
    (hname : isName name = true) (hobject : Derives .path object tree) :
    Form.of (object ++ g₁.text ++ '.' :: (g₂.text ++ name)) =
      .property (object ++ g₁.text) name := by
  have hpath := Derives.property g₁ g₂ hname hobject
  have hproperty : splitProperty? (object ++ g₁.text ++ '.' :: (g₂.text ++ name)) =
      some (object ++ g₁.text, name) := by
    have hparen : '(' ∉ object ++ g₁.text ++ '.' :: (g₂.text ++ name) := by
      intro hm
      have hfiller := hpath.isFiller_of_path '(' hm
      cases hfiller
    have hpoint : '.' ∉ g₂.text ++ name := by
      rw [List.mem_append, not_or]
      exact ⟨g₂.not_mem rfl, not_mem_of_isNamePart (isNamePart_of_isName hname).2⟩
    have hblank : Text.isBlankText (object ++ g₁.text) = false := by
      rw [Text.isBlankText_append, hobject.shape.isBlankText_eq_false, Bool.false_and]
    have htrim : Text.trim (g₂.text ++ name) = name := by
      have hpad := Text.trim_pad g₂.isBlankText (show Text.isBlankText [] = true from rfl) name
      rw [List.append_nil] at hpad
      rw [hpad]
      exact (shape_name hname).trim_eq
    simp only [splitProperty?, if_neg hparen, Text.cutLast?_of_not_mem hpoint, Option.bind_eq_bind,
      Option.bind_some, hblank, htrim, hname, Bool.not_true, Bool.or_self, Bool.false_eq_true,
      if_false, pure]
  exact formOf_of_splitProperty? hpath.shape rfl hpath.matchingParens_of_path hproperty

end ComponentFile.Expression
