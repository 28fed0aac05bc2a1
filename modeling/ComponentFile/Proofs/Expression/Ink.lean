import ComponentFile.Proofs.Expression.Cuts

/-!
# Nothing is lost in reading

Reading takes a text apart and writing puts it together again. White space, parentheses and commas
may come and go on the way; the *ink* of a text is all the rest. Well-formed or not, a text without
string literals and numerals has the ink of its tree, in the same order.
-/

namespace ComponentFile.Expression

/-- Whether the character is neither white space nor a round parenthesis nor a comma. -/
def isInk (c : Char) : Bool := !(isBlank c || c == '(' || c == ')' || c == ',')

/-- The text without its white space, round parentheses and commas. -/
def ink (text : Text) : Text := text.filter isInk

/-! ## The ink of parts -/

theorem ink_append (left right : Text) : ink (left ++ right) = ink left ++ ink right :=
  List.filter_append ..

/-- A character with ink stays in place. -/
theorem ink_cons {c : Char} (h : isInk c = true) (text : Text) : ink (c :: text) = c :: ink text :=
  List.filter_cons_of_pos h

/-- A character without ink vanishes. -/
theorem ink_cons_of_not {c : Char} (h : isInk c = false) (text : Text) :
    ink (c :: text) = ink text :=
  List.filter_cons_of_neg (Bool.eq_false_iff.mp h)

/-- Blanks have no ink. -/
theorem ink_of_blank {text : Text} (h : text.isBlankText = true) : ink text = [] := by
  refine List.filter_eq_nil_iff.mpr fun c hc => ?_
  rw [isInk, List.all_eq_true.mp h c hc]
  exact Bool.false_ne_true

/-- Trimming takes off no ink. -/
theorem ink_trim (text : Text) : ink text.trim = ink text := by
  obtain ⟨front, back, hfront, hback, htext⟩ := Text.exists_pad text
  conv_rhs => rw [htext, ink_append, ink_append, ink_of_blank hfront, ink_of_blank hback]
  rw [List.nil_append, List.append_nil]

private theorem ink_parenthesized (inner : Text) : ink (parenthesized inner) = ink inner := by
  rw [parenthesized, ink_cons_of_not rfl, ink_append]
  exact List.append_nil _

/-- The ink of joined texts is that of the texts, if the separator has none. -/
theorem ink_join {separator : Text} (h : ink separator = []) (texts : List Text) :
    ink (Text.join separator texts) = texts.flatMap ink := by
  induction texts with
  | nil => rfl
  | cons first texts ih =>
    cases texts with
    | nil => exact (List.append_nil _).symm
    | cons second texts =>
      have hjoin : Text.join separator (first :: second :: texts) =
          first ++ separator ++ Text.join separator (second :: texts) := rfl
      rw [hjoin, ink_append, ink_append, h, List.append_nil, ih]
      rfl

private theorem ink_splitArguments (text : Text) :
    (splitArguments text).flatMap ink = ink text := by
  have hcomma : ink [','] = [] := rfl
  rcases join_splitArguments text with hjoin | ⟨last, hblank, hjoin⟩
  · rw [← ink_join hcomma, hjoin]
  · have hall := ink_join hcomma (splitArguments text ++ [last])
    rw [hjoin, List.flatMap_append, List.flatMap_singleton, ink_of_blank hblank,
      List.append_nil] at hall
    exact hall.symm

/-! ## Reading and writing -/

/-- A form is written with the ink of its text if its parts are. -/
theorem Covers.ink_written {form : Form} {text : Text} {write : Text → Text} (h : Covers form text)
    (hwrite : ∀ part ∈ form.parts, ink (write part) = ink part)
    (hquote : ∀ c ∈ text, isQuote c = false)
    (hnumber : ∀ number, form ≠ .literal (.number number)) :
    ink (form.written write) = ink text := by
  cases h with
  | conditional condition consequent alternate =>
    simp only [Form.parts, List.forall_mem_cons] at hwrite
    obtain ⟨hcondition, hconsequent, halternate, -⟩ := hwrite
    have hquestion : ink [' ', '?', ' '] = ['?'] := rfl
    have hcolon : ink [' ', ':', ' '] = [':'] := rfl
    rw [Form.written, ink_append, ink_append, ink_append, ink_append, hcondition, hconsequent,
      halternate, hquestion, hcolon, ink_append, ink_cons rfl, ink_append, ink_cons rfl]
    simp only [List.append_assoc, List.cons_append, List.nil_append]
  | binary op left right =>
    simp only [Form.parts, List.forall_mem_cons] at hwrite
    obtain ⟨hleft, hright, -⟩ := hwrite
    rw [Form.written, ink_append, ink_append, ink_cons_of_not rfl, ink_cons_of_not rfl, hleft,
      hright, ink_append, ink_append]
  | unary op operand => rw [Form.written, ink_append, hwrite operand List.mem_cons_self, ink_append]
  | group inner => rw [Form.written, hwrite inner List.mem_cons_self, ink_parenthesized]
  | call callee inner =>
    have harguments :
        ((splitArguments inner).map write).flatMap ink = (splitArguments inner).flatMap ink := by
      rw [List.flatMap_map]
      exact List.flatMap_congr fun argument hm => hwrite argument (List.mem_cons_of_mem _ hm)
    rw [Form.written, ink_append, ink_parenthesized, ink_join rfl, harguments, ink_splitArguments,
      hwrite callee List.mem_cons_self, ink_append, ink_parenthesized]
  | property object hname =>
    rw [Form.written, ink_append, hwrite object List.mem_cons_self, ink_cons rfl, ink_trim,
      ink_append, ink_cons rfl]
  | literal hvalue =>
    rcases literal?_cases hvalue with ⟨c, hc, hc'⟩ | ⟨number, rfl, -⟩ | ⟨-, -, hdisplay⟩
    · rw [hquote c (List.mem_of_mem_head? hc)] at hc'
      cases hc'
    · exact absurd rfl (hnumber number)
    · rw [Form.written, hdisplay]
  | identifier | unknown => rfl

/-- A text without quotes in whose tree there is no number is read and written without loss of
ink. -/
theorem ink_display_parse {text : Text} (hquote : ∀ c ∈ text, isQuote c = false)
    (hnumber : ∀ number, .literal (.number number) ∉ nodes (parse text)) :
    ink (display (parse text)) = ink text := by
  induction text using parts_induction with
  | step text ih =>
    have hcovers := covers_formOf text.trim
    have htrim : ∀ c ∈ text.trim, isQuote c = false :=
      fun c hc => hquote c ((Text.trim_isInfix text).subset hc)
    rw [parse_eq] at hnumber
    rw [display_parse, hcovers.ink_written ?_ htrim ?_, ink_trim]
    · intro part hpart
      refine ih part hpart (fun c hc => htrim c (hcovers.subset_of_mem_parts hpart hc))
        fun number hm => ?_
      exact hnumber number (Form.nodes_subset_tree parse hpart hm)
    · intro number hform
      refine hnumber number ?_
      rw [hform]
      exact List.mem_cons_self

/-- The half-typed `f(a,,!b..c)?-:(d` keeps its names, points and operators. -/
theorem ink_display_parse_halfTyped :
    ink (display (parse ['f', '(', 'a', ',', ',', '!', 'b', '.', '.', 'c', ')', '?', '-', ':',
        '(', 'd'])) =
      ['f', 'a', '!', 'b', '.', '.', 'c', '?', '-', ':', 'd'] := by
  have hpath : parse ['b', '.', '.', 'c'] = .property (.unknown ['b', '.']) ['c'] :=
    (parse_eq _).trans (congrArg (Expression.property · ['c']) (parse_eq _))
  have hnot : parse ['!', 'b', '.', '.', 'c'] = .unary .not (parse ['b', '.', '.', 'c']) :=
    parse_eq _
  have hcall : parse ['f', '(', 'a', ',', ',', '!', 'b', '.', '.', 'c', ')'] =
      .call (parse ['f']) [parse ['a'], parse [], parse ['!', 'b', '.', '.', 'c']] := parse_eq _
  have hparse : parse ['f', '(', 'a', ',', ',', '!', 'b', '.', '.', 'c', ')', '?', '-',
        ':', '(', 'd'] =
      .conditional (parse ['f', '(', 'a', ',', ',', '!', 'b', '.', '.', 'c', ')']) (parse ['-'])
        (parse ['(', 'd']) :=
    parse_eq _
  have hcallee : parse ['f'] = .identifier ['f'] := parse_eq _
  have hname : parse ['a'] = .identifier ['a'] := parse_eq _
  have hnothing : parse [] = .unknown [] := parse_eq _
  have hminus : parse ['-'] = .unknown ['-'] := parse_eq _
  have hopen : parse ['(', 'd'] = .unknown ['(', 'd'] := parse_eq _
  refine (ink_display_parse (by simp [isQuote]) fun number hm => ?_).trans rfl
  rw [hparse, hcall, hnot, hpath, hcallee, hname, hnothing, hminus, hopen] at hm
  simp [nodes, nodesOfAll] at hm

end ComponentFile.Expression
