import ComponentFile.Expression.Printer
import ComponentFile.Proofs.Expression.Grammar

/-!
# What the forms leave of a text

Whatever form a text is taken for, the parts of the form and the characters between them make up the
text. This is said once, for all forms and without any assumption on the text, and every fact about
reading that holds of malformed text starts from it.
-/

namespace ComponentFile.Expression

/-! ## Marked text -/

namespace Marked

/-- The two pieces of a cut, with the target between them, are the text. -/
theorem eq_of_cut?_eq_some {target : Char} {marked after : Marked} {before : Text}
    (h : cut? target marked = some (before, after)) :
    marked.text = before ++ target :: after.text := by
  induction marked generalizing before with
  | nil => cases h
  | cons head rest ih =>
    obtain ⟨c, mark⟩ := head
    rw [cut?] at h
    split at h
    · next hfound =>
      obtain ⟨rfl, rfl⟩ := Prod.mk.inj (Option.some.inj h)
      rw [Bool.and_eq_true, beq_iff_eq] at hfound
      rw [text_cons, hfound.2]
      rfl
    · obtain ⟨⟨front, back⟩, hcut, he⟩ := Option.map_eq_some_iff.mp h
      obtain ⟨rfl, rfl⟩ := Prod.mk.inj he
      rw [text_cons, ih hcut, List.cons_append]

/-- The pieces with the target between neighbours are the text. -/
theorem join_pieces (target : Char) (marked : Marked) :
    Text.join [target] (pieces target marked) = marked.text := by
  induction marked with
  | nil => rfl
  | cons head rest ih =>
    obtain ⟨c, mark⟩ := head
    have hfront : target ∉ shown [] := List.not_mem_nil
    obtain ⟨first, others, hpieces, -⟩ := pieces_append hfront rest
    rw [hpieces] at ih
    rw [pieces, hpieces, text_cons, ← ih]
    split
    · next hfound =>
      rw [Bool.and_eq_true, beq_iff_eq] at hfound
      rw [hfound.2]
      rfl
    · cases others <;> rfl

/-- A symbol and what follows it are the text. -/
theorem eq_of_after?_eq_some {symbol : Text} {marked after : Marked}
    (h : after? symbol marked = some after) :
    marked.text = symbol ++ after.text := by
  induction symbol generalizing marked with
  | nil =>
    obtain rfl := Option.some.inj h
    rfl
  | cons s symbol ih =>
    cases marked with
    | nil => cases h
    | cons head marked =>
      obtain ⟨c, mark⟩ := head
      rw [after?] at h
      split at h
      · next hc => rw [text_cons, ih h, hc, List.cons_append]
      · cases h

end Marked

/-! ## Parentheses -/

/-- A pair is made of an opening parenthesis, read or still waiting, and a later closing one. -/
theorem parens_of_mem_parensFrom {position opener closer : Nat} {waiting : List Nat}
    {marked : Marked} (h : (opener, closer) ∈ parensFrom position waiting marked)
    (hwaiting : ∀ place ∈ waiting, place < position) :
    (opener ∈ waiting ∨ position ≤ opener ∧ marked.text[opener - position]? = some '(') ∧
      opener < closer ∧ position ≤ closer ∧ marked.text[closer - position]? = some ')' := by
  induction marked generalizing position waiting with
  | nil => cases h
  | cons head rest ih =>
    obtain ⟨c, mark⟩ := head
    -- a place later in the rest is the next place in the whole
    have hshift {place : Nat} {d : Char} (hle : position + 1 ≤ place)
        (hd : (Marked.text rest)[place - (position + 1)]? = some d) :
        (Marked.text ((c, mark) :: rest))[place - position]? = some d := by
      have hplace : place - position = place - (position + 1) + 1 := by omega
      rw [Marked.text_cons, hplace, List.getElem?_cons_succ, hd]
    have hlater {waiting : List Nat} (hall : ∀ place ∈ waiting, place < position + 1)
        (hm : (opener, closer) ∈ parensFrom (position + 1) waiting rest) :
        (opener ∈ waiting ∨ position ≤ opener ∧
            (Marked.text ((c, mark) :: rest))[opener - position]? = some '(') ∧
          opener < closer ∧ position ≤ closer ∧
            (Marked.text ((c, mark) :: rest))[closer - position]? = some ')' := by
      obtain ⟨hopener, hlt, hle, hcloser⟩ := ih hm hall
      refine ⟨hopener.imp_right fun hread => ?_, hlt, by omega, hshift hle hcloser⟩
      exact ⟨by omega, hshift hread.1 hread.2⟩
    have hkept : ∀ place ∈ waiting, place < position + 1 :=
      fun place hm => Nat.lt_succ_of_lt (hwaiting place hm)
    rw [parensFrom.eq_def] at h
    dsimp only at h
    split at h
    · next hopening =>
      rw [Bool.and_eq_true, beq_iff_eq] at hopening
      obtain ⟨hopener, hrest⟩ :=
        hlater (List.forall_mem_cons.mpr ⟨Nat.lt_succ_self position, hkept⟩) h
      refine ⟨?_, hrest⟩
      rcases hopener with hopener | hopener
      · rcases List.mem_cons.mp hopener with rfl | hopener
        · exact .inr ⟨Nat.le_refl _, by rw [Nat.sub_self, Marked.text_cons, hopening.2]; rfl⟩
        · exact .inl hopener
      · exact .inr hopener
    · split at h
      · next hclosing =>
        rw [Bool.and_eq_true, beq_iff_eq] at hclosing
        cases waiting with
        | nil => exact hlater hkept h
        | cons last outer =>
          rcases List.mem_cons.mp h with he | h
          · obtain ⟨rfl, rfl⟩ := Prod.mk.inj he
            refine ⟨.inl List.mem_cons_self, hwaiting _ List.mem_cons_self, Nat.le_refl _, ?_⟩
            rw [Nat.sub_self, Marked.text_cons, hclosing.2]
            rfl
          · obtain ⟨hopener, hrest⟩ := hlater
              (fun place hm => hkept place (List.mem_cons_of_mem _ hm)) h
            exact ⟨hopener.imp_left (List.mem_cons_of_mem _), hrest⟩
      · exact hlater hkept h

/-- A pair is made of an opening parenthesis and a later closing one. -/
theorem parens_of_mem_matchingParens {text : Text} {opener closer : Nat}
    (h : (opener, closer) ∈ matchingParens text) :
    text[opener]? = some '(' ∧ text[closer]? = some ')' ∧ opener < closer := by
  obtain ⟨hopener, hlt, -, hcloser⟩ := parens_of_mem_parensFrom h fun _ hm =>
    absurd hm List.not_mem_nil
  have htext : Marked.text (code text) = text := text_codeFrom .code text
  rw [htext, Nat.sub_zero] at hcloser hopener
  exact ⟨(hopener.resolve_left List.not_mem_nil).2, hcloser, hlt⟩

/-! ## The parts of each form -/

theorem eq_of_splitConditional? {text condition consequent alternate : Text}
    (h : splitConditional? text = some (condition, consequent, alternate)) :
    text = condition ++ '?' :: (consequent ++ ':' :: alternate) := by
  simp only [splitConditional?, Option.bind_eq_bind, Option.bind_eq_some_iff, Prod.exists,
    Option.pure_def, Option.some.injEq, Prod.mk.injEq] at h
  obtain ⟨before, marked, hquestion, between, after, hcolon, rfl, rfl, rfl⟩ := h
  rw [← Marked.eq_of_cut?_eq_some hcolon, ← Marked.eq_of_cut?_eq_some hquestion, text_topLevel]

theorem eq_of_operator? {group : List BinaryOperator} {before : Text} {marked after : Marked}
    {op : BinaryOperator} (h : operator? group before marked = some (op, after)) :
    marked.text = op.symbol ++ after.text := by
  obtain ⟨other, -, hother⟩ := List.exists_of_findSome?_eq_some h
  obtain ⟨rest, hafter, hother⟩ := Option.bind_eq_some_iff.mp hother
  split at hother
  · obtain ⟨rfl, rfl⟩ := Prod.mk.inj (Option.some.inj hother)
    exact Marked.eq_of_after?_eq_some hafter
  · cases hother

/-- A cut at an operator leaves the text before it and the text after it. -/
private theorem eq_of_splitGroup? {group : List BinaryOperator} {before left right : Text}
    {marked : Marked} {op : BinaryOperator}
    (h : splitGroup? group before marked = some (op, left, right)) :
    before.reverse ++ marked.text = left ++ op.symbol ++ right := by
  induction marked generalizing before with
  | nil => cases h
  | cons head rest ih =>
    obtain ⟨c, mark⟩ := head
    have hnext (h : splitGroup? group (c :: before) rest = some (op, left, right)) :
        before.reverse ++ Marked.text ((c, mark) :: rest) = left ++ op.symbol ++ right := by
      rw [← ih h, List.reverse_cons, List.append_assoc, Marked.text_cons, List.singleton_append]
    rw [splitGroup?] at h
    split at h
    · next found after hfound =>
      split at h
      · exact hnext h
      · simp only [Option.some.injEq, Prod.mk.injEq] at h
        obtain ⟨rfl, rfl, rfl⟩ := h
        split at hfound
        · rw [eq_of_operator? hfound, List.append_assoc]
        · cases hfound
    · exact hnext h

theorem eq_of_splitBinary? {text left right : Text} {op : BinaryOperator}
    (h : splitBinary? text = some (op, left, right)) : text = left ++ op.symbol ++ right := by
  obtain ⟨group, -, hgroup⟩ := List.exists_of_findSome?_eq_some h
  rw [← eq_of_splitGroup? hgroup, text_topLevel]
  rfl

theorem eq_of_splitUnary? {text operand : Text} {op : UnaryOperator}
    (h : splitUnary? text = some (op, operand)) : text = op.symbol ++ operand := by
  unfold splitUnary? at h
  split at h
  · obtain ⟨rfl, rfl⟩ := Prod.mk.inj (Option.some.inj h)
    rfl
  · split at h
    · cases h
    · obtain ⟨rfl, rfl⟩ := Prod.mk.inj (Option.some.inj h)
      rfl
  · cases h

theorem eq_of_stripGroup? {text inner : Text} (h : stripGroup? text = some inner) :
    text = parenthesized inner := by
  unfold stripGroup? at h
  split at h
  · next rest =>
    split at h
    · next hpair =>
      obtain rfl := Option.some.inj h
      obtain ⟨-, hcloser, hlt⟩ := parens_of_mem_matchingParens hpair
      have hlast : rest.getLast? = some ')' := by
        rw [List.getLast?_eq_getElem?, ← hcloser, ← List.getElem?_cons_succ (a := '('),
          Nat.sub_add_cancel hlt]
      rw [parenthesized, List.dropLast_append_getLast? ')' hlast]
    · cases h
  · cases h

/-- A call is a callee and an argument list in parentheses. -/
theorem exists_of_splitCall? {text callee : Text} {arguments : List Text}
    (h : splitCall? text = some (callee, arguments)) :
    ∃ inner, text = callee ++ parenthesized inner ∧ arguments = splitArguments inner := by
  simp only [splitCall?, Option.bind_eq_bind, Option.bind_eq_some_iff, Prod.exists] at h
  obtain ⟨opener, closer, hfind, h⟩ := h
  obtain ⟨hopener, hcloser, hlt⟩ := parens_of_mem_matchingParens (List.mem_of_find?_eq_some hfind)
  have hlength := List.find?_some hfind
  rw [beq_iff_eq] at hlength
  split at h
  · cases h
  obtain ⟨rfl, rfl⟩ := Prod.mk.inj (Option.some.inj h)
  refine ⟨text.dropLast.drop (opener + 1), ?_, rfl⟩
  have hlast : text.getLast? = some ')' := by
    rw [List.getLast?_eq_getElem?, ← hcloser, ← hlength, Nat.add_sub_cancel]
  -- the opening parenthesis stands before the last character
  have hfront : text.dropLast[opener]? = some '(' := by
    rw [List.getElem?_dropLast, if_pos (by omega), hopener]
  have hcut : text.dropLast.take opener ++ '(' :: text.dropLast.drop (opener + 1) =
      text.dropLast := by
    obtain ⟨hbound, hget⟩ := List.getElem?_eq_some_iff.mp hfront
    rw [← hget, List.getElem_cons_drop, List.take_append_drop]
  calc text = text.dropLast ++ [')'] := (List.dropLast_append_getLast? ')' hlast).symm
    _ = text.dropLast.take opener ++ parenthesized (text.dropLast.drop (opener + 1)) := by
      rw [parenthesized, ← List.cons_append, ← List.append_assoc, hcut]

/-- An argument list is its arguments with commas between them, and perhaps a last comma and
blanks. -/
theorem join_splitArguments (text : Text) :
    Text.join [','] (splitArguments text) = text ∨
      ∃ last, last.isBlankText = true ∧ Text.join [','] (splitArguments text ++ [last]) = text := by
  have hjoin := Marked.join_pieces ',' (topLevel text)
  rw [text_topLevel] at hjoin
  unfold splitArguments
  dsimp only
  split
  · next last hlast =>
    split
    · next hblank =>
      refine .inr ⟨last, hblank, ?_⟩
      rw [List.dropLast_append_getLast? last hlast, hjoin]
    · exact .inl hjoin
  · exact .inl hjoin

theorem exists_of_splitProperty? {text object name : Text}
    (h : splitProperty? text = some (object, name)) :
    ∃ after, text = object ++ '.' :: after ∧ name = Text.trim after ∧ isName name = true := by
  unfold splitProperty? at h
  split at h
  · cases h
  · obtain ⟨⟨front, after⟩, hcut, h⟩ := Option.bind_eq_some_iff.mp h
    dsimp only at h
    split at h
    · cases h
    next hname =>
    obtain ⟨rfl, rfl⟩ := Prod.mk.inj (Option.some.inj h)
    rw [Bool.or_eq_true, not_or, Bool.not_eq_true', Bool.not_eq_false] at hname
    have hsource : text = front ++ ['.'] ++ after := Text.eq_of_cutLast?_eq_some hcut
    rw [List.append_assoc, List.singleton_append] at hsource
    exact ⟨after, hsource, rfl, hname.2⟩

/-- A constant is a string in quotes, a number or a truth value. -/
theorem literal?_cases {text : Text} {value : Literal} (h : literal? text = some value) :
    (∃ c ∈ text.head?, isQuote c = true) ∨
      (∃ number, value = .number number ∧ number? text = some number) ∨
      ∃ truth, value = .bool truth ∧ displayLiteral value = text := by
  have hnumber (h : (number? text).map Literal.number = some value) :
      ∃ number, value = .number number ∧ number? text = some number := by
    obtain ⟨number, hread, rfl⟩ := Option.map_eq_some_iff.mp h
    exact ⟨number, rfl, hread⟩
  unfold literal? at h
  split at h
  · split at h
    · next hquote =>
      rw [Bool.and_eq_true] at hquote
      exact .inl ⟨_, rfl, hquote.1⟩
    split at h
    · next htrue =>
      obtain rfl := Option.some.inj h
      exact .inr (.inr ⟨true, rfl, htrue.symm⟩)
    split at h
    · next hfalse =>
      obtain rfl := Option.some.inj h
      exact .inr (.inr ⟨false, rfl, hfalse.symm⟩)
    · exact .inr (.inl (hnumber h))
  · exact .inr (.inl (hnumber h))

/-! ## Forms -/

/-- How a form lies in the text it was found in. -/
inductive Covers : Form → Text → Prop
  | conditional (condition consequent alternate : Text) :
      Covers (.conditional condition consequent alternate)
        (condition ++ '?' :: (consequent ++ ':' :: alternate))
  | binary (op : BinaryOperator) (left right : Text) :
      Covers (.binary op left right) (left ++ op.symbol ++ right)
  | unary (op : UnaryOperator) (operand : Text) : Covers (.unary op operand) (op.symbol ++ operand)
  | group (inner : Text) : Covers (.group inner) (parenthesized inner)
  | call (callee inner : Text) :
      Covers (.call callee (splitArguments inner)) (callee ++ parenthesized inner)
  | property (object : Text) {after : Text} (hname : isName (Text.trim after) = true) :
      Covers (.property object (Text.trim after)) (object ++ '.' :: after)
  | literal {text : Text} {value : Literal} (h : literal? text = some value) :
      Covers (.literal value) text
  | identifier {name : Text} (hname : isName name = true) : Covers (.identifier name) name
  | unknown (raw : Text) : Covers (.unknown raw) raw

/-- The outermost form of a text covers the text. -/
theorem covers_formOf (text : Text) : Covers (Form.of text) text := by
  unfold Form.of
  split
  · next hsplit => exact eq_of_splitConditional? hsplit ▸ .conditional ..
  split
  · next hsplit => exact eq_of_splitBinary? hsplit ▸ .binary ..
  split
  · next hsplit => exact eq_of_splitUnary? hsplit ▸ .unary ..
  split
  · next hsplit => exact eq_of_stripGroup? hsplit ▸ .group _
  split
  · next hsplit =>
    obtain ⟨inner, rfl, rfl⟩ := exists_of_splitCall? hsplit
    exact .call _ inner
  split
  · next hsplit =>
    obtain ⟨after, rfl, rfl, hname⟩ := exists_of_splitProperty? hsplit
    exact .property _ hname
  split
  · next hvalue => exact .literal hvalue
  split
  · next hname => exact .identifier hname
  · exact .unknown text

/-- An argument is part of its argument list. -/
theorem subset_of_mem_splitArguments {text argument : Text} (h : argument ∈ splitArguments text) :
    argument ⊆ text := by
  rcases join_splitArguments text with hjoin | ⟨last, -, hjoin⟩
  · exact hjoin ▸ Text.subset_join h
  · have hsubset : argument ⊆ Text.join [','] (splitArguments text ++ [last]) :=
      Text.subset_join (List.mem_append_left _ h)
    rwa [hjoin] at hsubset

/-- The parts of a form are parts of the text. -/
theorem Covers.subset_of_mem_parts {form : Form} {text part : Text} (h : Covers form text)
    (hpart : part ∈ form.parts) : part ⊆ text := by
  cases h with
  | conditional condition consequent alternate =>
    simp only [Form.parts, List.mem_cons, List.not_mem_nil, or_false] at hpart
    rcases hpart with rfl | rfl | rfl <;> intro c hc <;> simp [hc]
  | binary op left right =>
    simp only [Form.parts, List.mem_cons, List.not_mem_nil, or_false] at hpart
    rcases hpart with rfl | rfl <;> intro c hc <;> simp [hc]
  | unary op operand =>
    obtain rfl := List.mem_singleton.mp hpart
    exact List.subset_append_right _ _
  | group inner =>
    obtain rfl := List.mem_singleton.mp hpart
    exact fun c hc => List.mem_cons_of_mem _ (List.mem_append_left _ hc)
  | call callee inner =>
    rcases List.mem_cons.mp hpart with rfl | hpart
    · exact List.subset_append_left _ _
    · intro c hc
      have hinner := subset_of_mem_splitArguments hpart hc
      exact List.mem_append_right _ (List.mem_cons_of_mem _ (List.mem_append_left _ hinner))
  | property object hname =>
    obtain rfl := List.mem_singleton.mp hpart
    exact List.subset_append_left _ _
  | literal | identifier | unknown => cases hpart

/-- What holds of a text as soon as it holds of the parts of its form holds of every text. -/
theorem parts_induction {motive : Text → Prop}
    (step : ∀ text, (∀ part ∈ (Form.of text.trim).parts, motive part) → motive text) (text : Text) :
    motive text := by
  refine step text fun part hpart => ?_
  have hshorter : part.length < text.length :=
    Nat.lt_of_lt_of_le (Form.length_lt_of_mem_parts hpart) (Text.length_trim_le text)
  exact parts_induction step part
termination_by text.length

/-! ## Trees -/

mutual

/-- A tree and all trees in it. -/
def nodes : Expression → List Expression
  | .identifier name => [.identifier name]
  | .property object name => .property object name :: nodes object
  | .call callee arguments => .call callee arguments :: (nodes callee ++ nodesOfAll arguments)
  | .binary op left right => .binary op left right :: (nodes left ++ nodes right)
  | .unary op operand => .unary op operand :: nodes operand
  | .conditional condition consequent alternate =>
    .conditional condition consequent alternate ::
      (nodes condition ++ nodes consequent ++ nodes alternate)
  | .literal value => [.literal value]
  | .unknown raw => [.unknown raw]

/-- All trees in the trees of a list. -/
def nodesOfAll : List Expression → List Expression
  | [] => []
  | tree :: rest => nodes tree ++ nodesOfAll rest

end

theorem nodes_subset_nodesOfAll {tree : Expression} {trees : List Expression} (h : tree ∈ trees) :
    nodes tree ⊆ nodesOfAll trees := by
  induction trees with
  | nil => cases h
  | cons first trees ih =>
    rw [nodesOfAll]
    rcases List.mem_cons.mp h with rfl | h
    · exact List.subset_append_left _ _
    · exact fun node hm => List.mem_append_right _ (ih h hm)

/-- The tree of a part is in the tree of the form. -/
theorem Form.nodes_subset_tree (read : Text → Expression) {form : Form} {part : Text}
    (h : part ∈ form.parts) :
    nodes (read part) ⊆ nodes (form.tree read) := by
  intro node hm
  cases form with
  | conditional condition consequent alternate =>
    simp only [parts, List.mem_cons, List.not_mem_nil, or_false] at h
    rcases h with rfl | rfl | rfl <;> simp [tree, nodes, hm]
  | binary op left right =>
    simp only [parts, List.mem_cons, List.not_mem_nil, or_false] at h
    rcases h with rfl | rfl <;> simp [tree, nodes, hm]
  | unary op operand =>
    obtain rfl := List.mem_singleton.mp h
    exact List.mem_cons_of_mem _ hm
  | group inner =>
    obtain rfl := List.mem_singleton.mp h
    exact hm
  | call callee arguments =>
    rcases List.mem_cons.mp h with rfl | h
    · exact List.mem_cons_of_mem _ (List.mem_append_left _ hm)
    · have hall := nodes_subset_nodesOfAll (List.mem_map_of_mem (f := read) h) hm
      exact List.mem_cons_of_mem _ (List.mem_append_right _ hall)
  | property object name =>
    obtain rfl := List.mem_singleton.mp h
    exact List.mem_cons_of_mem _ hm
  | literal | identifier | unknown => cases h

/-! ## Writing by forms -/

/-- The written form of a list of arguments has a comma and a space between neighbours. -/
theorem displayArguments_eq_join (trees : List Expression) :
    displayArguments trees = Text.join [',', ' '] (trees.map display) := by
  induction trees with
  | nil => rfl
  | cons tree trees ih =>
    cases trees with
    | nil => rfl
    | cons next trees =>
      rw [displayArguments, ih]
      · rfl
      · exact List.cons_ne_nil _ _

/-- The written form of a form, given how its parts are written. -/
def Form.written (write : Text → Text) : Form → Text
  | .conditional condition consequent alternate =>
    write condition ++ [' ', '?', ' '] ++ write consequent ++ [' ', ':', ' '] ++ write alternate
  | .binary op left right => write left ++ ' ' :: op.symbol ++ ' ' :: write right
  | .unary op operand => op.symbol ++ write operand
  | .group inner => write inner
  | .call callee arguments =>
    write callee ++ parenthesized (Text.join [',', ' '] (arguments.map write))
  | .property object name => write object ++ '.' :: name
  | .literal value => displayLiteral value
  | .identifier name => name
  | .unknown raw => raw

/-- A form is written alike if its parts are. -/
theorem Form.written_congr {form : Form} {write other : Text → Text}
    (h : ∀ part ∈ form.parts, write part = other part) :
    form.written write = form.written other := by
  cases form with
  | conditional | binary | unary | group | property =>
    simp only [parts, List.forall_mem_cons] at h
    simp only [written, h]
  | call callee arguments =>
    obtain ⟨hcallee, harguments⟩ := List.forall_mem_cons.mp h
    rw [written, written, hcallee, List.map_congr_left harguments]
  | literal | identifier | unknown => rfl

/-- A text that is read and written is written as its form. -/
theorem display_parse (text : Text) :
    display (parse text) = (Form.of text.trim).written fun part => display (parse part) := by
  rw [parse_eq]
  cases Form.of text.trim with
  | call callee arguments =>
    rw [Form.tree, display, displayArguments_eq_join, List.map_map, Form.written, parenthesized,
      List.append_assoc, List.cons_append]
    rfl
  | _ => rfl

end ComponentFile.Expression
