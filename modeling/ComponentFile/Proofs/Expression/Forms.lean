import ComponentFile.Proofs.Expression.Phrases
import ComponentFile.Proofs.Text.Cutting

/-!
# The outermost forms of phrases

The outermost form of a phrase is the rule by which it was derived. Forms that are tried before fail
because of the shape of the phrase, and the cut is made where the rule put the parts together.
-/

namespace ComponentFile.Expression

open BinaryOperator

/-! ## Choices and operations -/

/-- The outermost form of a choice. -/
theorem formOf_choice {condition consequent alternate : Text} (g₁ g₂ g₃ g₄ : Gap)
    (hcondition : Shape (.operation 0) condition) (hconsequent : Shape (.operation 0) consequent) :
    Form.of (condition ++ g₁.text ++ '?' ::
        (g₂.text ++ consequent ++ g₃.text ++ ':' :: (g₄.text ++ alternate))) =
      .conditional (condition ++ g₁.text) (g₂.text ++ consequent ++ g₃.text)
        (g₄.text ++ alternate) := by
  have hfirst : '?' ∉ Marked.shown (topLevel condition ++ Marked.plain g₁.text) := by
    rw [Marked.shown_append, Marked.shown_plain, List.mem_append, not_or]
    exact ⟨hcondition.shown '?' (.head _), g₁.not_mem rfl⟩
  have hsecond :
      ':' ∉ Marked.shown (Marked.plain g₂.text ++ topLevel consequent ++ Marked.plain g₃.text) := by
    simp only [Marked.shown_append, Marked.shown_plain, List.mem_append, not_or]
    exact ⟨⟨g₂.not_mem rfl, hconsequent.shown ':' (.tail _ (.head _))⟩, g₃.not_mem rfl⟩
  have hsplit : splitConditional? (condition ++ g₁.text ++ '?' ::
      (g₂.text ++ consequent ++ g₃.text ++ ':' :: (g₄.text ++ alternate))) =
        some (condition ++ g₁.text, g₂.text ++ consequent ++ g₃.text, g₄.text ++ alternate) := by
    simp only [splitConditional?, topLevel_choice hcondition.closed hconsequent.closed,
      Marked.cut?_append_cons hfirst, Marked.cut?_append_cons hsecond, Option.bind_eq_bind,
      Option.bind_some, Marked.text_append, Marked.text_plain, text_topLevel, pure]
  rw [Form.of, hsplit]

namespace Shape

variable {phrase : Phrase} {text : Text}

/-- A phrase without question marks is no choice. -/
theorem splitConditional?_eq_none (h : Shape phrase text) (hquestion : '?' ∈ phrase.separators) :
    splitConditional? text = none := by
  rw [splitConditional?, Marked.cut?_eq_none (h.shown '?' hquestion)]
  rfl

/-- A phrase without operators of any group is no operation. -/
theorem splitBinary?_eq_none (h : Shape phrase text) (hrank : phrase.rank = groups.length) :
    splitBinary? text = none := by
  rw [splitBinary?, List.findSome?_eq_none_iff]
  intro group hgroup
  refine (h.skips group ?_ [] rfl).splitGroup?_eq_none
  rwa [hrank, List.take_length]

end Shape

private theorem splitGroup?_operation {k : Nat} {group : List BinaryOperator} {op : BinaryOperator}
    {left right : Text} (g₁ g₂ : Gap) (hgroup : groups[k]? = some group) (hop : op ∈ group)
    (hg₁ : g₁.text ≠ []) (hg₂ : g₂.text ≠ []) (hleft : Shape (.operation (k + 1)) left)
    (hright : Shape (.operation k) right) :
    splitGroup? group [] (topLevel (left ++ g₁.text ++ op.symbol ++ g₂.text ++ right)) =
      some (op, left ++ g₁.text, g₂.text ++ right) := by
  have hmem : group ∈ groups := List.mem_of_getElem? hgroup
  have htake : group ∈ groups.take (k + 1) := by
    refine List.mem_of_getElem? (?_ : (groups.take (k + 1))[k]? = some group)
    rw [List.getElem?_take_of_lt (Nat.lt_succ_self k), hgroup]
  have hfront : Skips group [] (topLevel left ++ Marked.plain g₁.text) :=
    (hleft.skips group htake [] rfl).append
      (skips_filler hmem (fun c hc => g₁.isFiller_of_mem hc) _)
  -- the operator stands between the last blank of one gap and the first of the other
  obtain ⟨front, a, ha⟩ := (List.eq_nil_or_concat' g₁.text).resolve_left hg₁
  obtain ⟨b, back, hb⟩ := List.exists_cons_of_ne_nil hg₂
  have hblankBefore : isBlank a = true :=
    List.all_eq_true.mp g₁.isBlankText a (ha ▸ List.mem_concat_self)
  have hblankAfter : isBlank b = true :=
    List.all_eq_true.mp g₂.isBlankText b (hb ▸ List.mem_cons_self)
  have hbefore : (left ++ g₁.text).reverse = a :: (left ++ front).reverse := by
    rw [ha, ← List.append_assoc, List.reverse_append]
    rfl
  have hplace : isSignPlace (a :: (left ++ front).reverse) = false := by
    have hend := hleft.isSignPlace_reverse []
    rw [List.append_nil] at hend
    rwa [← hbefore, List.reverse_append, isSignPlace_gap]
  have hfound : operator? group (left ++ g₁.text).reverse
      (Marked.plain op.symbol ++ (Marked.plain g₂.text ++ topLevel right)) =
        some (op, Marked.plain g₂.text ++ topLevel right) := by
    rw [hbefore, hb]
    exact operator?_symbol hgroup hop hblankBefore hblankAfter hplace
      (Marked.plain back ++ topLevel right)
  have hafter : Marked.text (Marked.plain g₂.text ++ topLevel right) = g₂.text ++ right := by
    rw [Marked.text_append, Marked.text_plain, text_topLevel]
  have hcut := splitGroup?_symbol hfound ?_ ?_
  · rw [topLevel_operation hleft.closed, ← List.append_assoc, hfront, Marked.text_append,
      Marked.text_plain, text_topLevel, List.append_nil, hcut, List.reverse_reverse, hafter]
  · rw [Text.isBlankText_reverse, Text.isBlankText_append, hleft.isBlankText_eq_false,
      Bool.false_and]
  · rw [hafter, Text.isBlankText_append, hright.isBlankText_eq_false, Bool.and_false]

/-- The outermost form of an operation. -/
theorem formOf_operation {k : Nat} {group : List BinaryOperator} {op : BinaryOperator}
    {left right : Text} (g₁ g₂ : Gap) (hgroup : groups[k]? = some group) (hop : op ∈ group)
    (hg₁ : g₁.text ≠ []) (hg₂ : g₂.text ≠ []) (hleft : Shape (.operation (k + 1)) left)
    (hright : Shape (.operation k) right) :
    Form.of (left ++ g₁.text ++ op.symbol ++ g₂.text ++ right) =
      .binary op (left ++ g₁.text) (g₂.text ++ right) := by
  have hshape := Shape.operation g₁ g₂ hgroup hop hg₂ hleft hright
  have hsplit : splitBinary? (left ++ g₁.text ++ op.symbol ++ g₂.text ++ right) =
      some (op, left ++ g₁.text, g₂.text ++ right) := by
    obtain ⟨hlt, hget⟩ := List.getElem?_eq_some_iff.mp hgroup
    refine List.findSome?_eq_some_iff.mpr ⟨groups.take k, group, groups.drop (k + 1), ?_,
      splitGroup?_operation g₁ g₂ hgroup hop hg₁ hg₂ hleft hright, fun other hm => ?_⟩
    · rw [← hget, List.getElem_cons_drop, List.take_append_drop]
    · exact (hshape.skips other hm [] rfl).splitGroup?_eq_none
  rw [Form.of, hshape.splitConditional?_eq_none List.mem_cons_self, hsplit]

/-! ## Prefix operators -/

/-- The outermost form of an operand with a prefix operator. -/
theorem formOf_unary {op : UnaryOperator} {text operand : Text} (h : Shape .signed text)
    (hsplit : splitUnary? text = some (op, operand)) : Form.of text = .unary op operand := by
  rw [Form.of, h.splitConditional?_eq_none List.mem_cons_self, h.splitBinary?_eq_none rfl, hsplit]

/-- A minus sign with no digit after it is a prefix operator. -/
theorem splitUnary?_minus {operand : Text} (hne : operand ≠ [])
    (h : ∀ c ∈ operand.head?, c.isDigit = false) :
    splitUnary? ('-' :: operand) = some (.negate, operand) := by
  obtain ⟨c, rest, rfl⟩ := List.exists_cons_of_ne_nil hne
  rw [splitUnary?, h c rfl, if_neg Bool.false_ne_true]

/-! ## Parentheses -/

private theorem stripGroup?_parenthesized {inner : Text} (h : Closed inner) :
    stripGroup? (parenthesized inner) = some inner := by
  obtain ⟨pairs, -, hparens⟩ := exists_parensFrom_parenthesized h 0 [] []
  rw [List.append_nil] at hparens
  have hpair : (0, (inner ++ [')']).length) ∈ matchingParens (parenthesized inner) := by
    rw [matchingParens, hparens, List.length_append, List.length_singleton, Nat.zero_add]
    exact List.mem_append_right _ List.mem_cons_self
  change (if (0, (inner ++ [')']).length) ∈ matchingParens (parenthesized inner) then
    some (inner ++ [')']).dropLast else none) = some inner
  rw [if_pos hpair, List.dropLast_concat]

/-- The last pair of parentheses in a text that ends with one. -/
theorem exists_matchingParens {front inner : Text} (hfront : Closed front) (hinner : Closed inner) :
    ∃ pairs : List (Nat × Nat), (∀ pair ∈ pairs, pair.2 < front.length + inner.length + 1) ∧
      matchingParens (front ++ parenthesized inner) =
        pairs ++ [(front.length, front.length + inner.length + 1)] := by
  obtain ⟨first, hfirst, hparens⟩ := hfront.parensFrom_append 0 [] (code (parenthesized inner))
  obtain ⟨second, hsecond, hmore⟩ := exists_parensFrom_parenthesized hinner (0 + front.length) [] []
  rw [List.append_nil, Nat.zero_add] at hmore
  rw [Nat.zero_add] at hparens hfirst hsecond
  refine ⟨first ++ second, fun pair hm => ?_, ?_⟩
  · rcases List.mem_append.mp hm with hm | hm
    · have hlt := hfirst pair hm
      omega
    · exact hsecond pair hm
  · rw [matchingParens, hfront.code_append, hparens, hmore, List.append_assoc, parensFrom]

private theorem stripGroup?_call {front inner : Text} (hfront : Closed front)
    (hinner : Closed inner) (hne : front ≠ []) :
    stripGroup? (front ++ parenthesized inner) = none := by
  obtain ⟨pairs, hpairs, hparens⟩ := exists_matchingParens hfront hinner
  unfold stripGroup?
  split
  · next rest htext =>
    have hlength := congrArg List.length htext
    rw [List.length_append, parenthesized, List.length_cons, List.length_cons, List.length_append,
      List.length_singleton] at hlength
    have hpositive : 0 < front.length := List.length_pos_iff.mpr hne
    refine if_neg fun hm => ?_
    rw [hparens, List.mem_append, List.mem_singleton, Prod.mk.injEq] at hm
    rcases hm with hm | ⟨hzero, -⟩
    · have hlt := hpairs _ hm
      dsimp only at hlt
      omega
    · omega
  · rfl

/-- A call is cut at the parenthesis after its callee. -/
theorem splitCall?_call {front inner : Text} (hfront : Closed front) (hinner : Closed inner)
    (hblank : front.isBlankText = false) :
    splitCall? (front ++ parenthesized inner) = some (front, splitArguments inner) := by
  obtain ⟨pairs, hpairs, hparens⟩ := exists_matchingParens hfront hinner
  have hlength : (front ++ parenthesized inner).length = front.length + inner.length + 2 := by
    rw [List.length_append, parenthesized, List.length_cons, List.length_append,
      List.length_singleton]
    omega
  have hfind : (matchingParens (front ++ parenthesized inner)).find?
      (fun pair => pair.2 + 1 == (front ++ parenthesized inner).length) =
        some (front.length, front.length + inner.length + 1) := by
    have hnone : pairs.find? (fun pair => pair.2 + 1 == front.length + inner.length + 2) =
        none := by
      refine List.find?_eq_none.mpr fun pair hm => ?_
      have hlt := hpairs pair hm
      rw [beq_iff_eq]
      omega
    rw [hparens, hlength, List.find?_append, hnone, Option.none_or, List.find?_singleton]
    exact if_pos (beq_self_eq_true _)
  have hdrop : (front ++ parenthesized inner).dropLast = front ++ '(' :: inner := by
    rw [parenthesized, ← List.cons_append, ← List.append_assoc, List.dropLast_concat]
  have harguments : (front ++ '(' :: inner).drop (front.length + 1) = inner := by
    rw [← List.drop_drop, List.drop_left, List.drop_succ_cons, List.drop_zero]
  simp only [splitCall?, hfind, Option.bind_eq_bind, Option.bind_some, hdrop, List.take_left,
    hblank, Bool.false_eq_true, if_false, harguments, pure]

/-- A text without parentheses in its code is neither a group nor a call. -/
theorem splitCall?_eq_none {text : Text} (h : matchingParens text = []) :
    stripGroup? text = none ∧ splitCall? text = none := by
  constructor
  · unfold stripGroup?
    split
    · rw [h]
      exact if_neg List.not_mem_nil
    · rfl
  · simp only [splitCall?, h, List.find?_nil, Option.bind_eq_bind, Option.bind_none]

/-! ## Arguments -/

private theorem pieces_argumentList {arguments : List Argument} (hne : arguments ≠ [])
    (h : ∀ argument ∈ arguments, Shape .choice argument.text) :
    Marked.pieces ',' (topLevel (argumentList arguments)) = arguments.map Argument.padded := by
  have hgap (gap : Gap) : ',' ∉ gap.text := gap.not_mem rfl
  have htop (argument : Argument) (hshape : Shape .choice argument.text) :
      Closed argument.padded ∧ ',' ∉ (topLevel argument.padded).shown := by
    refine ⟨(argument.before.closed.append hshape.closed).append argument.after.closed, ?_⟩
    rw [Argument.padded, (argument.before.closed.append hshape.closed).topLevel_append,
      argument.before.closed.topLevel_append, argument.before.topLevel_eq,
      argument.after.topLevel_eq]
    simp only [Marked.shown_append, Marked.shown_plain, List.mem_append, not_or]
    exact ⟨⟨hgap _, hshape.shown ',' List.mem_cons_self⟩, hgap _⟩
  induction arguments with
  | nil => exact absurd rfl hne
  | cons argument rest ih =>
    obtain ⟨hclosed, hshown⟩ := htop argument (h argument List.mem_cons_self)
    cases rest with
    | nil => rw [argumentList, Marked.pieces_eq_singleton hshown, text_topLevel, List.map_singleton]
    | cons next rest =>
      have hrest := ih (List.cons_ne_nil _ _) fun other hm => h other (List.mem_cons_of_mem _ hm)
      have hcomma : topLevel (',' :: argumentList (next :: rest)) =
          (',', true) :: topLevel (argumentList (next :: rest)) := rfl
      rw [argumentList, hclosed.topLevel_append, hcomma, Marked.pieces_append_cons hshown,
        text_topLevel, hrest]
      · rfl
      · exact List.cons_ne_nil _ _

/-- The arguments of a call are those between its commas. -/
theorem splitArguments_argumentList {arguments : List Argument} (hne : arguments ≠ [])
    (h : ∀ argument ∈ arguments, Shape .choice argument.text) :
    splitArguments (argumentList arguments) = arguments.map Argument.padded := by
  obtain ⟨front, last, hlast⟩ := (List.eq_nil_or_concat' arguments).resolve_left hne
  have hshape := h last (hlast ▸ List.mem_concat_self)
  have hblank : last.padded.isBlankText = false := by
    rw [Argument.padded, Text.isBlankText_append, Text.isBlankText_append,
      hshape.isBlankText_eq_false, Bool.and_false, Bool.false_and]
  have hget : (arguments.map Argument.padded).getLast? = some last.padded := by
    rw [hlast, List.map_append, List.map_singleton, List.getLast?_concat]
  simp only [splitArguments, pieces_argumentList hne h, hget, hblank, Bool.false_eq_true, if_false]

/-- White space holds no argument. -/
theorem splitArguments_gap (gap : Gap) : splitArguments gap.text = [] := by
  have hcomma : ',' ∉ (topLevel gap.text).shown := by
    rw [gap.topLevel_eq, Marked.shown_plain]
    exact gap.not_mem rfl
  simp only [splitArguments, Marked.pieces_eq_singleton hcomma, text_topLevel,
    List.getLast?_singleton, gap.isBlankText, if_true, List.dropLast_singleton]

/-- Texts and their trees as arguments, with white space before the first and one space before each
other. -/
def spread (gap : Gap) : List (Text × Expression) → List Argument
  | [] => []
  | (text, tree) :: rest => ⟨gap, text, ⟨[], rfl⟩, tree⟩ :: spread ⟨[' '], rfl⟩ rest

theorem map_tree_spread (gap : Gap) (parts : List (Text × Expression)) :
    (spread gap parts).map Argument.tree = parts.map Prod.snd := by
  induction parts generalizing gap with
  | nil => rfl
  | cons part parts ih => rw [spread, List.map_cons, ih, List.map_cons]

/-- Spread arguments are the texts, up to white space. -/
theorem map_trim_spread (gap : Gap) (parts : List (Text × Expression)) :
    ((spread gap parts).map Argument.padded).map Text.trim = parts.map fun part => part.1.trim := by
  induction parts generalizing gap with
  | nil => rfl
  | cons part parts ih =>
    rw [spread, List.map_cons, List.map_cons, ih, List.map_cons, Argument.padded,
      Text.trim_pad gap.isBlankText (Gap.isBlankText _)]

theorem mem_of_mem_spread {gap : Gap} {parts : List (Text × Expression)} {argument : Argument}
    (h : argument ∈ spread gap parts) : (argument.text, argument.tree) ∈ parts := by
  induction parts generalizing gap with
  | nil => cases h
  | cons part parts ih =>
    rcases List.mem_cons.mp h with rfl | h
    · exact List.mem_cons_self
    · exact List.mem_cons_of_mem _ (ih h)

theorem spread_ne_nil (gap : Gap) {parts : List (Text × Expression)} (h : parts ≠ []) :
    spread gap parts ≠ [] := by
  obtain ⟨part, rest, rfl⟩ := List.exists_cons_of_ne_nil h
  exact List.cons_ne_nil _ _

/-- Spread arguments stand in the list with a comma and a space between neighbours. -/
theorem argumentList_spread (gap : Gap) {parts : List (Text × Expression)} (hne : parts ≠ []) :
    argumentList (spread gap parts) = gap.text ++ Text.join [',', ' '] (parts.map Prod.fst) := by
  induction parts generalizing gap with
  | nil => exact absurd rfl hne
  | cons part parts ih =>
    cases parts with
    | nil => exact List.append_nil _
    | cons next parts =>
      have hlist : argumentList (spread gap (part :: next :: parts)) =
          gap.text ++ part.1 ++ [] ++
            ',' :: argumentList (spread ⟨[' '], rfl⟩ (next :: parts)) := rfl
      have hjoin : Text.join [',', ' '] ((part :: next :: parts).map Prod.fst) =
          part.1 ++ [',', ' '] ++ Text.join [',', ' '] ((next :: parts).map Prod.fst) := rfl
      rw [hlist, ih _ (List.cons_ne_nil _ _), hjoin, List.append_nil]
      simp only [List.append_assoc, List.cons_append, List.nil_append]

/-! ## Tight phrases -/

/-- A tight phrase is no choice, no operation and has no prefix operator. -/
theorem Shape.splits_eq_none {phrase : Phrase} {text : Text} (h : Shape phrase text)
    (htight : phrase.isTight = true) :
    splitConditional? text = none ∧ splitBinary? text = none ∧ splitUnary? text = none := by
  have hkind : '?' ∈ phrase.separators ∧ phrase.rank = groups.length := by
    cases phrase with
    | choice | operation | signed => cases htight
    | called | atom | path => exact ⟨List.mem_cons_self, rfl⟩
  have hunsigned := h.unsigned htight []
  rw [List.append_nil] at hunsigned
  exact ⟨h.splitConditional?_eq_none hkind.1, h.splitBinary?_eq_none hkind.2, hunsigned⟩

/-- The outermost form of a closed text in parentheses is the group, whatever the text: nothing in
it is at the top level, so no other form is found. -/
theorem formOf_parenthesized {inner : Text} (h : Closed inner) :
    Form.of (parenthesized inner) = .group inner := by
  have htop := topLevel_parenthesized h
  have hconditional : splitConditional? (parenthesized inner) = none := by
    have hshown : '?' ∉ Marked.shown (Marked.hidden (parenthesized inner)) := by
      rw [Marked.shown_hidden]
      exact List.not_mem_nil
    rw [splitConditional?, htop, Marked.cut?_eq_none hshown]
    rfl
  have hbinary : splitBinary? (parenthesized inner) = none := by
    rw [splitBinary?, List.findSome?_eq_none_iff]
    intro group _
    rw [htop]
    exact (skips_hidden group [] (parenthesized inner)).splitGroup?_eq_none
  have hunary : splitUnary? (parenthesized inner) = none := rfl
  rw [Form.of, hconditional, hbinary, hunary, stripGroup?_parenthesized h]

/-- The outermost form of a call. -/
theorem formOf_call {callee inner : Text} (gap : Gap) (hcallee : Shape .called callee)
    (hinner : Closed inner) :
    Form.of (callee ++ gap.text ++ parenthesized inner) =
      .call (callee ++ gap.text) (splitArguments inner) := by
  have hshape := hcallee.append (trailing_parenthesized gap hinner)
  rw [← List.append_assoc] at hshape
  obtain ⟨hconditional, hbinary, hunary⟩ := hshape.splits_eq_none rfl
  have hfront := hcallee.closed.append gap.closed
  have hblank : Text.isBlankText (callee ++ gap.text) = false := by
    rw [Text.isBlankText_append, hcallee.isBlankText_eq_false, Bool.false_and]
  have hne := List.append_ne_nil_of_left_ne_nil hcallee.ne_nil gap.text
  rw [Form.of, hconditional, hbinary, hunary, stripGroup?_call hfront hinner hne,
    splitCall?_call hfront hinner hblank]

end ComponentFile.Expression
