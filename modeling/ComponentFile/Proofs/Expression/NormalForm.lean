import ComponentFile.Proofs.Expression.Written

/-!
# Writing gives a normal form

A written text is read and written as itself, even where the tree is not the one it was written
from: whatever its outermost form is, the parts of the form are written texts up to a space, and
writing puts the spaces back. What is read from a text without string literals and without unknown
parts is written as a written text, so reading and writing once more changes nothing.
-/

namespace ComponentFile.Expression

open BinaryOperator

namespace Written

variable {text : Text}

theorem trim_eq (h : Written text) : text.trim = text := h.shape.trim_eq

theorem trim_append_space (h : Written text) : Text.trim (text ++ [' ']) = text := by
  rw [Text.trim_append_of_blank text rfl, h.trim_eq]

theorem trim_space_append (h : Written text) : Text.trim (' ' :: text) = text := by
  rw [Text.trim_cons_of_blank rfl, h.trim_eq]

/-! ## The parts of a written text -/

private theorem of_splitConditional? (h : Written text) {condition consequent alternate : Text}
    (hsplit : splitConditional? text = some (condition, consequent, alternate)) :
    (Written condition.trim ∧ Written consequent.trim ∧ Written alternate.trim) ∧
      condition.trim ++ [' ', '?', ' '] ++ consequent.trim ++ [' ', ':', ' '] ++
        alternate.trim = text := by
  simp only [splitConditional?, Option.bind_eq_bind, Option.bind_eq_some_iff, Prod.exists,
    Option.pure_def, Option.some.injEq, Prod.mk.injEq] at hsplit
  obtain ⟨before, marked, hquestion, between, after, hcolon, rfl, rfl, rfl⟩ := hsplit
  obtain ⟨left, right, hfirst, rfl, rfl⟩ := h.exists_of_cut? (.inl ⟨rfl, rfl⟩) hquestion
  have hblank : ':' ∉ Marked.shown [(' ', true)] := by decide
  rw [← List.singleton_append, Marked.cut?_append hblank] at hcolon
  obtain ⟨⟨inner, rest⟩, hinner, he⟩ := Option.map_eq_some_iff.mp hcolon
  obtain ⟨middle, last, hsecond, rfl, rfl⟩ :=
    hfirst.written_right.exists_of_cut? (.inr ⟨rfl, rfl⟩) hinner
  obtain ⟨rfl, rfl⟩ := Prod.mk.inj he
  have hbetween : Text.trim (Marked.text [(' ', true)] ++ (middle ++ [' '])) = middle := by
    rw [← List.append_assoc]
    exact (Text.trim_pad rfl rfl middle).trans hsecond.written_left.trim_eq
  rw [hfirst.written_left.trim_append_space, hbetween, Marked.text_cons, text_topLevel,
    hsecond.written_right.trim_space_append]
  refine ⟨⟨hfirst.written_left, hsecond.written_left, hsecond.written_right⟩, ?_⟩
  rw [hfirst.text_eq, hsecond.text_eq]
  simp only [Separator.spaced, Separator.symbol, List.append_assoc, List.cons_append,
    List.nil_append]

private theorem of_splitBinary? (h : Written text) {op : BinaryOperator} {left right : Text}
    (hsplit : splitBinary? text = some (op, left, right)) :
    (Written left.trim ∧ Written right.trim) ∧
      left.trim ++ ' ' :: op.symbol ++ ' ' :: right.trim = text := by
  obtain ⟨first, second, hparts, rfl, rfl⟩ := h.exists_of_splitBinary? hsplit
  rw [hparts.written_left.trim_append_space, hparts.written_right.trim_space_append]
  refine ⟨⟨hparts.written_left, hparts.written_right⟩, ?_⟩
  rw [hparts.text_eq]
  simp only [Separator.spaced, Separator.symbol, List.append_assoc, List.cons_append,
    List.nil_append]

/-- What follows a prefix operator is a written text. -/
theorem of_signed (h : Written text) {c : Char} {rest : Text} (htext : text = c :: rest)
    (hc : c = '!' ∨ c = '-') :
    Written rest := by
  have hpart {d : Char} (hd : isNamePart d = true) : d ≠ c := by
    rintro rfl
    rcases hc with rfl | rfl <;> cases hd
  -- a longer text starts with the same character as its first part
  have hfirst {piece more rest : Text} (hpiece : Written piece) (he : piece ++ more = c :: rest) :
      ∃ tail, piece = c :: tail ∧ rest = tail ++ more := by
    obtain ⟨d, tail, rfl, -⟩ := hpiece.exists_cons
    obtain ⟨rfl, rfl⟩ := List.cons.inj he
    exact ⟨tail, rfl, rfl⟩
  induction h generalizing rest with
  | name hname =>
    obtain ⟨hne, hparts⟩ := isNamePart_of_isName hname
    exact absurd rfl (hpart (hparts c (htext ▸ List.mem_cons_self)))
  | numeral hwhole _ _ =>
    obtain ⟨d, tail, hcons, hdigit⟩ := exists_numeral_eq_cons hwhole _
    obtain ⟨rfl, -⟩ := List.cons.inj (hcons.symm.trans htext)
    exact absurd rfl (hpart (by simp only [isNamePart, hdigit, Bool.or_true]))
  | signed op hoperand _ =>
    cases op <;> exact (List.cons.inj htext).2 ▸ hoperand
  | property hobject hname ih =>
    obtain ⟨tail, hcons, rfl⟩ := hfirst hobject htext
    exact .property (ih hcons) hname
  | call hcallee harguments ih _ =>
    obtain ⟨tail, hcons, rfl⟩ := hfirst hcallee htext
    exact .call (ih hcons) harguments
  | spaced separator hleft hright ih _ =>
    rw [List.append_assoc] at htext
    obtain ⟨tail, hcons, rfl⟩ := hfirst hleft htext
    rw [← List.append_assoc]
    exact .spaced separator (ih hcons) hright

/-- A written text ends with an argument list after a written text, or with a character of names. -/
private theorem exists_call_or_namePart (h : Written text) :
    (∃ callee arguments, Written callee ∧ (∀ argument ∈ arguments, Written argument) ∧
      text = callee ++ parenthesized (Text.join [',', ' '] arguments)) ∨
      ∃ front c, text = front ++ [c] ∧ isNamePart c = true := by
  induction h with
  | name hname =>
    obtain ⟨hne, hpart⟩ := isNamePart_of_isName hname
    exact .inr (exists_edges hne hpart).2
  | numeral hwhole hfraction _ => exact .inr (exists_numeral_eq_concat hwhole hfraction)
  | signed op _ ih =>
    rcases ih with ⟨callee, arguments, hcallee, harguments, rfl⟩ | ⟨front, c, rfl, hc⟩
    · exact .inl ⟨op.symbol ++ callee, arguments, .signed op hcallee, harguments,
        (List.append_assoc ..).symm⟩
    · exact .inr ⟨op.symbol ++ front, c, (List.append_assoc ..).symm, hc⟩
  | @property object name _ hname _ =>
    obtain ⟨hne, hpart⟩ := isNamePart_of_isName hname
    obtain ⟨front, c, rfl, hc⟩ := (exists_edges hne hpart).2
    exact .inr ⟨object ++ '.' :: front, c, by simp only [List.append_assoc, List.cons_append], hc⟩
  | call hcallee harguments _ _ => exact .inl ⟨_, _, hcallee, harguments, rfl⟩
  | @spaced separator left _ hleft _ _ ih =>
    rcases ih with ⟨callee, arguments, hcallee, harguments, rfl⟩ | ⟨front, c, rfl, hc⟩
    · exact .inl ⟨left ++ separator.spaced ++ callee, arguments,
        .spaced separator hleft hcallee, harguments,
        (List.append_assoc ..).symm⟩
    · exact .inr ⟨left ++ separator.spaced ++ front, c, (List.append_assoc ..).symm, hc⟩

end Written

private theorem map_trim_splitArguments {arguments : List Text}
    (h : ∀ argument ∈ arguments, Written argument) :
    (splitArguments (Text.join [',', ' '] arguments)).map Text.trim = arguments := by
  by_cases hne : arguments = []
  · rw [hne]
    rfl
  · let empty : Gap := ⟨[], rfl⟩
    let parts := arguments.map fun argument => (argument, Expression.unknown argument)
    have hparts : parts ≠ [] := by simpa [parts] using hne
    have htexts : parts.map Prod.fst = arguments := by simp [parts, Function.comp_def]
    have hshape : ∀ argument ∈ spread empty parts, Shape .choice argument.text := by
      intro argument hm
      obtain ⟨text, htext, he⟩ := List.mem_map.mp (mem_of_mem_spread hm)
      exact (Prod.mk.inj he).1 ▸ (h text htext).shape
    have hsplit := splitArguments_argumentList (spread_ne_nil empty hparts) hshape
    rw [argumentList_spread empty hparts, List.nil_append, htexts] at hsplit
    have htrim : parts.map (fun part => part.1.trim) = arguments := by
      rw [List.map_map]
      exact (List.map_congr_left fun argument hm => (h argument hm).trim_eq).trans (List.map_id _)
    rw [hsplit, map_trim_spread, htrim]

namespace Written

variable {text : Text}

private theorem of_splitCall? (h : Written text) {callee : Text} {arguments : List Text}
    (hsplit : splitCall? text = some (callee, arguments)) :
    (Written callee.trim ∧ ∀ argument ∈ arguments, Written argument.trim) ∧
      callee.trim ++ parenthesized (Text.join [',', ' '] (arguments.map Text.trim)) = text := by
  rcases h.exists_call_or_namePart with ⟨front, parts, hfront, hparts, rfl⟩ | ⟨front, c, rfl, hc⟩
  · rw [splitCall?_call hfront.shape.closed (closed_arguments hparts)
      hfront.shape.isBlankText_eq_false] at hsplit
    obtain ⟨rfl, rfl⟩ := Prod.mk.inj (Option.some.inj hsplit)
    rw [hfront.trim_eq, map_trim_splitArguments hparts]
    refine ⟨⟨hfront, fun argument hm => ?_⟩, rfl⟩
    have htrim := List.mem_map_of_mem (f := Text.trim) hm
    rw [map_trim_splitArguments hparts] at htrim
    exact hparts _ htrim
  · obtain ⟨inner, htext, -⟩ := exists_of_splitCall? hsplit
    have hclosing : front ++ [c] = (callee ++ '(' :: inner) ++ [')'] := by
      rw [htext, parenthesized, List.append_assoc, List.cons_append]
    obtain ⟨rfl, -⟩ := List.cons.inj (List.append_inj' hclosing rfl).2
    cases hc

/-- Every separator holds a character that is neither blank nor part of a name, and no point. -/
private theorem exists_mem_spaced (separator : Separator) :
    '.' ∉ separator.spaced ∧ ∃ c ∈ separator.spaced, isBlank c = false ∧ isNamePart c = false := by
  cases separator with
  | operator op =>
    cases op <;> exact ⟨by decide, _, List.mem_cons_of_mem _ List.mem_cons_self, rfl, rfl⟩
  | question | colon => exact ⟨by decide, _, List.mem_cons_of_mem _ List.mem_cons_self, rfl, rfl⟩

/-- What stands before the last point of a written text is a written text, if a name follows the
point. -/
private theorem of_point (h : Written text) {object after : Text}
    (htext : text = object ++ '.' :: after) (hname : isName (Text.trim after) = true) :
    Written object ∧ Text.trim after = after := by
  have hpart {c : Char} (hblank : isBlank c = false) (hc : c ∈ after) : isNamePart c = true :=
    (isNamePart_of_isName hname).2 c (Text.mem_trim hc hblank)
  have hpoint : '.' ∉ after := fun hm => absurd (hpart rfl hm) (by decide)
  induction h generalizing object with
  | name hname' =>
    refine absurd ?_ (not_mem_of_isNamePart (isNamePart_of_isName hname').2)
    rw [htext]
    exact List.mem_append_right _ List.mem_cons_self
  | @numeral whole fraction hwhole hfraction _ =>
    cases fraction with
    | none =>
      refine absurd ?_ (not_mem_of_isDigits hwhole)
      rw [← List.append_nil whole, show whole ++ [] = object ++ '.' :: after from htext]
      exact List.mem_append_right _ List.mem_cons_self
    | some digits =>
      have hdigits := hfraction digits rfl
      obtain ⟨-, rfl⟩ := Text.eq_of_append_cons_eq htext (not_mem_of_isDigits hdigits) hpoint
      rw [isName_trim_of_isDigits hdigits] at hname
      cases hname
  | signed op _ ih =>
    rcases Text.cases_of_append_eq_append_cons htext with
      ⟨piece, rfl, hoperand⟩ | ⟨piece, hsymbol, -⟩
    · exact (ih hoperand).imp_left (.signed op)
    · have hm : '.' ∈ op.symbol := hsymbol ▸ List.mem_append_right _ List.mem_cons_self
      cases op <;> exact absurd hm (by decide)
  | property hobject hname' _ =>
    have hfree := not_mem_of_isNamePart (isNamePart_of_isName hname').2
    obtain ⟨rfl, rfl⟩ := Text.eq_of_append_cons_eq htext hfree hpoint
    exact ⟨hobject, (shape_name hname').trim_eq⟩
  | @call callee arguments _ _ _ _ =>
    -- a closing parenthesis would be part of the name
    rcases List.eq_nil_or_concat' after with rfl | ⟨front, c, rfl⟩
    · cases hname
    · have hclosing : (callee ++ '(' :: Text.join [',', ' '] arguments) ++ [')'] =
          (object ++ '.' :: front) ++ [c] := by
        rw [List.append_assoc, List.append_assoc, List.cons_append, List.cons_append]
        exact htext
      obtain ⟨rfl, -⟩ := List.cons.inj (List.append_inj' hclosing rfl).2
      exact absurd (hpart rfl List.mem_concat_self) (by decide)
  | @spaced separator left right hleft _ _ ih =>
    obtain ⟨hnone, c, hc, hblank, hnot⟩ := exists_mem_spaced separator
    rcases Text.cases_of_append_eq_append_cons htext with
      ⟨piece, rfl, hright⟩ | ⟨piece, hfront, rfl⟩
    · exact (ih hright).imp_left (.spaced separator hleft)
    · rcases Text.cases_of_append_eq_append_cons hfront with ⟨other, -, hspaced⟩ | ⟨other, -, rfl⟩
      · exact absurd (hspaced ▸ List.mem_append_right _ List.mem_cons_self) hnone
      · -- the separator would be part of the name
        have hm : c ∈ other ++ separator.spaced ++ right :=
          List.mem_append_left _ (List.mem_append_right _ hc)
        rw [hpart hblank hm] at hnot
        cases hnot

private theorem of_splitProperty? (h : Written text) {object name : Text}
    (hsplit : splitProperty? text = some (object, name)) :
    Written object.trim ∧ object.trim ++ '.' :: name = text := by
  obtain ⟨after, htext, rfl, hname⟩ := exists_of_splitProperty? hsplit
  obtain ⟨hobject, hafter⟩ := h.of_point htext hname
  rw [hobject.trim_eq, hafter]
  exact ⟨hobject, htext.symm⟩

/-- A written text that is read as a number, but for its sign, is written so. -/
private theorem of_unsignedNumber? (h : Written text) {negative : Bool} {value : Binary64}
    (hread : unsignedNumber? negative text = some value) :
    numberLayout.write value = (if negative then ['-'] else []) ++ text := by
  have hchar : ∀ c ∈ text, c.isDigit = true ∨ c = '.' := by
    obtain ⟨whole, fraction, hwhole, hfraction, rfl, -⟩ := exists_of_unsignedNumber? hread
    exact fun c hc => mem_numeral_cases hwhole hfraction hc
  have hstart {name : Text} (hname : isName name = true) (hsubset : name ⊆ text) : False := by
    cases name with
    | nil => cases hname
    | cons c rest =>
      rw [isName, Bool.and_eq_true] at hname
      rcases hchar c (hsubset List.mem_cons_self) with hdigit | rfl
      · rw [isNameStart_of_isDigit hdigit] at hname
        cases hname.1
      · cases hname.1
  cases h with
  | name hname => exact (hstart hname (List.Subset.refl _)).elim
  | numeral hwhole hfraction hwrite =>
    rw [unsignedNumber?_numeral hwhole hfraction] at hread
    obtain rfl := Option.some.inj hread
    rw [write_eq_sign_append, ← hwrite]
    rfl
  | signed op _ => cases op <;> exact absurd (hchar _ List.mem_cons_self) (by decide)
  | property _ hname =>
    exact (hstart hname fun c hc => List.mem_append_right _ (List.mem_cons_of_mem _ hc)).elim
  | call _ _ => exact absurd (hchar '(' (List.mem_append_right _ List.mem_cons_self)) (by decide)
  | @spaced separator left right _ _ =>
    have hm : ' ' ∈ left ++ separator.spaced ++ right :=
      List.mem_append_left _ (List.mem_append_right _ List.mem_cons_self)
    exact absurd (hchar ' ' hm) (by decide)

private theorem of_literal? (h : Written text) {value : Literal}
    (hread : literal? text = some value) :
    displayLiteral value = text := by
  rcases literal?_cases hread with ⟨c, hc, hquote⟩ | ⟨number, rfl, hnumber⟩ | ⟨-, -, hdisplay⟩
  · obtain ⟨d, rest, rfl, hd⟩ := h.exists_cons
    obtain rfl := Option.some.inj hc
    simp only [isQuote, Bool.or_eq_true, beq_iff_eq] at hquote
    rcases hquote with (rfl | rfl) | rfl <;> cases hd
  · obtain ⟨negative, unsigned, htext, hunsigned⟩ := number?_cases hnumber
    cases negative with
    | false =>
      obtain rfl : text = unsigned := htext
      exact h.of_unsignedNumber? hunsigned
    | true => exact ((h.of_signed htext (Or.inr rfl)).of_unsignedNumber? hunsigned).trans htext.symm
  · exact hdisplay

/-- Whatever the outermost form of a written text is, its parts are written texts up to a space, and
the form is written as the text. -/
theorem form (h : Written text) :
    (∀ part ∈ (Form.of text).parts, Written part.trim) ∧
      (Form.of text).written Text.trim = text := by
  unfold Form.of
  split
  · next hsplit =>
    obtain ⟨⟨hcondition, hconsequent, halternate⟩, htext⟩ := h.of_splitConditional? hsplit
    exact ⟨List.forall_mem_cons.mpr ⟨hcondition, List.forall_mem_cons.mpr ⟨hconsequent,
      List.forall_mem_singleton.mpr halternate⟩⟩, htext⟩
  split
  · next hsplit =>
    obtain ⟨⟨hleft, hright⟩, htext⟩ := h.of_splitBinary? hsplit
    exact ⟨List.forall_mem_cons.mpr ⟨hleft, List.forall_mem_singleton.mpr hright⟩, htext⟩
  split
  · next op operand hsplit =>
    have htext := eq_of_splitUnary? hsplit
    have hoperand : Written operand := by
      cases op with
      | not => exact h.of_signed htext (Or.inl rfl)
      | negate => exact h.of_signed htext (Or.inr rfl)
    rw [Form.written, hoperand.trim_eq, htext]
    exact ⟨List.forall_mem_singleton.mpr (hoperand.trim_eq.symm ▸ hoperand), rfl⟩
  split
  · next hsplit =>
    obtain ⟨c, rest, hcons, hc⟩ := h.exists_cons
    obtain ⟨rfl, -⟩ := List.cons.inj (hcons.symm.trans (eq_of_stripGroup? hsplit))
    cases hc
  split
  · next hsplit =>
    obtain ⟨hparts, htext⟩ := h.of_splitCall? hsplit
    exact ⟨List.forall_mem_cons.mpr hparts, htext⟩
  split
  · next hsplit =>
    obtain ⟨hobject, htext⟩ := h.of_splitProperty? hsplit
    exact ⟨List.forall_mem_singleton.mpr hobject, htext⟩
  split
  · next hvalue => exact ⟨fun _ hm => absurd hm List.not_mem_nil, h.of_literal? hvalue⟩
  split
  · exact ⟨fun _ hm => absurd hm List.not_mem_nil, rfl⟩
  · exact ⟨fun _ hm => absurd hm List.not_mem_nil, rfl⟩

/-- A written text, up to blanks around it, is read and written as itself. -/
theorem display_parse (h : Written text.trim) : display (parse text) = text.trim := by
  induction text using parts_induction with
  | step text ih =>
    obtain ⟨hparts, htext⟩ := h.form
    rw [Expression.display_parse,
      Form.written_congr fun part hpart => ih part hpart (hparts part hpart), htext]

end Written

/-! ## What is written -/

private theorem written_number {text : Text} {value : Binary64} (h : number? text = some value) :
    Written (numberLayout.write value) := by
  have hsize : Written (numberLayout.write ⟨false, value.magnitude⟩) := by
    obtain ⟨negative, unsigned, -, hunsigned⟩ := number?_cases h
    obtain ⟨whole, fraction, -, -, -, rfl⟩ := exists_of_unsignedNumber? hunsigned
    cases hmagnitude : (numeralValue negative whole fraction).magnitude with
    | infinite => exact .name rfl
    | finite mantissa exponent =>
      have hfinite : (Binary64.mk false (.finite mantissa exponent)).magnitude.IsFinite :=
        Magnitude.isFinite_nearest (Nat.pow_pos (by decide)) hmagnitude
      obtain ⟨whole, fraction, hstands, hwrite, hvalue⟩ := exists_write_eq_numeral hfinite
      rw [hwrite]
      exact .numeral hstands.isDigits_whole hstands.isDigits_fraction (hvalue.symm ▸ hwrite)
  rw [write_eq_sign_append]
  cases value.negative with
  | false => exact hsize
  | true => exact .signed .negate hsize

/-- A known form of a text without quotes is written as a written text if its parts are. -/
theorem Covers.written {form : Form} {text : Text} {write : Text → Text} (h : Covers form text)
    (hwrite : ∀ part ∈ form.parts, Written (write part)) (hquote : ∀ c ∈ text, isQuote c = false)
    (hknown : ∀ raw, form ≠ .unknown raw) : Written (form.written write) := by
  cases h with
  | conditional condition consequent alternate =>
    simp only [Form.parts, List.forall_mem_cons] at hwrite
    obtain ⟨hcondition, hconsequent, halternate, -⟩ := hwrite
    exact .spaced .colon (.spaced .question hcondition hconsequent) halternate
  | binary op left right =>
    simp only [Form.parts, List.forall_mem_cons] at hwrite
    obtain ⟨hleft, hright, -⟩ := hwrite
    have hspaced := Written.spaced (.operator op) hleft hright
    simp only [Separator.spaced, Separator.symbol, List.append_assoc, List.cons_append,
      List.nil_append] at hspaced
    rw [Form.written, List.append_assoc, List.cons_append]
    exact hspaced
  | unary op operand => exact .signed op (hwrite operand List.mem_cons_self)
  | group inner => exact hwrite inner List.mem_cons_self
  | call callee inner =>
    refine .call (hwrite callee List.mem_cons_self) fun argument hm => ?_
    obtain ⟨part, hpart, rfl⟩ := List.mem_map.mp hm
    exact hwrite part (List.mem_cons_of_mem _ hpart)
  | property object hname => exact .property (hwrite object List.mem_cons_self) hname
  | @literal text value hvalue =>
    rcases literal?_cases hvalue with ⟨c, hc, hc'⟩ | ⟨number, rfl, hnumber⟩ | ⟨truth, rfl, -⟩
    · rw [hquote c (List.mem_of_mem_head? hc)] at hc'
      cases hc'
    · exact written_number hnumber
    · cases truth <;> exact .name rfl
  | identifier hname => exact .name hname
  | unknown => exact absurd rfl (hknown _)

/-- What is read from a text without quotes and without unknown parts is written as a written
text. -/
theorem written_display_parse {text : Text} (hquote : ∀ c ∈ text, isQuote c = false)
    (hknown : ∀ raw, .unknown raw ∉ nodes (parse text)) : Written (display (parse text)) := by
  induction text using parts_induction with
  | step text ih =>
    have hcovers := covers_formOf text.trim
    have htrim : ∀ c ∈ text.trim, isQuote c = false :=
      fun c hc => hquote c ((Text.trim_isInfix text).subset hc)
    rw [parse_eq] at hknown
    rw [display_parse]
    refine hcovers.written (fun part hpart => ?_) htrim fun raw hform => ?_
    · refine ih part hpart (fun c hc => htrim c (hcovers.subset_of_mem_parts hpart hc))
        fun raw hm => ?_
      exact hknown raw (Form.nodes_subset_tree parse hpart hm)
    · refine hknown raw ?_
      rw [hform]
      exact List.mem_cons_self

/-- A text without quotes in whose tree nothing is unknown is written in a form that reading and
writing once more does not change. -/
theorem display_parse_idem {text : Text} (hquote : ∀ c ∈ text, isQuote c = false)
    (hknown : ∀ raw, .unknown raw ∉ nodes (parse text)) :
    display (parse (display (parse text))) = display (parse text) := by
  have hwritten := written_display_parse hquote hknown
  have htrim := hwritten.trim_eq
  rw [Written.display_parse (htrim.symm ▸ hwritten), htrim]

/-- From `(a?(b?c:d):-(e+1))*g.h( 2.50 ,)` to a text that falls apart and is written as it is. -/
theorem display_parse_idem_ungrouped :
    display (parse ['(', 'a', '?', '(', 'b', '?', 'c', ':', 'd', ')', ':', '-', '(', 'e', '+', '1',
      ')', ')', '*', 'g',
        '.', 'h', '(', ' ', '2', '.', '5', '0', ' ', ',', ')']) =
      ['a', ' ', '?', ' ', 'b', ' ', '?', ' ', 'c', ' ', ':', ' ', 'd', ' ', ':', ' ', '-', 'e',
        ' ', '+', ' ', '1',
        ' ', '*', ' ', 'g', '.', 'h', '(', '2', '.', '5', ')'] ∧
    display (parse ['a', ' ', '?', ' ', 'b', ' ', '?', ' ', 'c', ' ', ':', ' ', 'd', ' ', ':', ' ',
      '-', 'e', ' ', '+',
        ' ', '1', ' ', '*', ' ', 'g', '.', 'h', '(', '2', '.', '5', ')']) =
      ['a', ' ', '?', ' ', 'b', ' ', '?', ' ', 'c', ' ', ':', ' ', 'd', ' ', ':', ' ', '-', 'e',
        ' ', '+', ' ', '1',
        ' ', '*', ' ', 'g', '.', 'h', '(', '2', '.', '5', ')'] := by
  have hname (c : Char) (h : isName [c] = true) : parse [c] = .identifier [c] :=
    (Derives.name h fun value => by cases value <;> exact fun he => nomatch he).parse_eq
  have hone : parse ['1'] = .literal (.number (numeralValue false ['1'] none)) := parse_eq _
  have hhalf : parse [' ', '2', '.', '5', '0', ' '] =
      .literal (.number (numeralValue false ['2'] (some ['5', '0']))) :=
    parse_eq _
  have hpath : parse ['g', '.', 'h'] = .property (parse ['g']) ['h'] := parse_eq _
  have hcall : parse ['g', '.', 'h', '(', ' ', '2', '.', '5', '0', ' ', ',', ')'] =
      .call (parse ['g', '.', 'h']) [parse [' ', '2', '.', '5', '0', ' ']] := parse_eq _
  have hsum : parse ['e', '+', '1'] = .binary .add (parse ['e']) (parse ['1']) := parse_eq _
  have hgroup : parse ['(', 'e', '+', '1', ')'] = parse ['e', '+', '1'] := parse_eq _
  have hminus : parse ['-', '(', 'e', '+', '1', ')'] =
      .unary .negate (parse ['(', 'e', '+', '1', ')']) := parse_eq _
  have hchoice : parse ['b', '?', 'c', ':', 'd'] =
      .conditional (parse ['b']) (parse ['c']) (parse ['d']) := parse_eq _
  have hinner : parse ['(', 'b', '?', 'c', ':', 'd', ')'] = parse ['b', '?', 'c', ':', 'd'] :=
    parse_eq _
  have houter : parse ['a', '?', '(', 'b', '?', 'c', ':', 'd', ')', ':', '-', '(', 'e',
        '+', '1', ')'] =
      .conditional (parse ['a']) (parse ['(', 'b', '?', 'c', ':', 'd', ')'])
        (parse ['-', '(', 'e', '+', '1', ')']) :=
    parse_eq _
  have hfactor : parse ['(', 'a', '?', '(', 'b', '?', 'c', ':', 'd', ')', ':', '-', '(', 'e', '+',
        '1', ')', ')'] =
      parse ['a', '?', '(', 'b', '?', 'c', ':', 'd', ')', ':', '-', '(', 'e', '+', '1', ')'] :=
        parse_eq _
  have hsource : parse ['(', 'a', '?', '(', 'b', '?', 'c', ':', 'd', ')', ':', '-', '(', 'e', '+',
      '1', ')', ')', '*', 'g', '.', 'h', '(', ' ', '2', '.', '5', '0', ' ', ',', ')'] =
      .binary .multiply
        (parse ['(', 'a', '?', '(', 'b', '?', 'c', ':', 'd', ')', ':', '-', '(', 'e', '+',
          '1', ')', ')'])
        (parse ['g', '.', 'h', '(', ' ', '2', '.', '5', '0', ' ', ',', ')']) := parse_eq _
  rw [hfactor, houter, hinner, hchoice, hminus, hgroup, hsum, hcall, hpath, hhalf, hone,
    hname 'a' rfl, hname 'b' rfl, hname 'c' rfl, hname 'd' rfl, hname 'e' rfl,
    hname 'g' rfl] at hsource
  have hwritten :
      display (parse ['(', 'a', '?', '(', 'b', '?', 'c', ':', 'd', ')', ':', '-', '(', 'e', '+',
        '1', ')', ')', '*', 'g', '.', 'h', '(', ' ', '2', '.', '5', '0', ' ', ',', ')']) =
      ['a', ' ', '?', ' ', 'b', ' ', '?', ' ', 'c', ' ', ':', ' ', 'd', ' ', ':', ' ', '-', 'e',
        ' ', '+', ' ', '1', ' ', '*', ' ', 'g', '.', 'h', '(', '2', '.', '5', ')'] := by
    rw [hsource]
    decide +kernel
  refine ⟨hwritten, ?_⟩
  rw [← hwritten]
  refine display_parse_idem (by simp [isQuote]) fun raw hm => ?_
  rw [hsource] at hm
  simp [nodes, nodesOfAll] at hm

end ComponentFile.Expression
