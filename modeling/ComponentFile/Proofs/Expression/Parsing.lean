import ComponentFile.Proofs.Expression.Atoms

/-!
# Reading derived texts

A text with a derivation is read as the tree of the derivation. The reader has no grammar: it cuts a
text at its outermost form, and the derivation says which form that is and where the cut falls.
-/

namespace ComponentFile.Expression

private theorem parse_append_gap (text : Text) (gap : Gap) :
    parse (text ++ gap.text) = parse text :=
  parse_pad ⟨[], rfl⟩ gap text

private theorem parse_gap_append (gap : Gap) (text : Text) :
    parse (gap.text ++ text) = parse text := by
  have hpad := parse_pad gap ⟨[], rfl⟩ text
  rwa [List.append_nil] at hpad

/-- A phrase is read as its outermost form. -/
theorem Shape.parse_eq {phrase : Phrase} {text : Text} (h : Shape phrase text) :
    parse text = (Form.of text).tree parse := by
  rw [Expression.parse_eq, h.trim_eq]

/-- A phrase is read as the tree of its derivation. -/
theorem Derives.parse_eq {phrase : Phrase} {text : Text} {tree : Expression}
    (h : Derives phrase text tree) :
    parse text = tree := by
  -- a phrase that is also one of a tighter kind is read already
  induction h with
  | ofOperation _ ih | ofTighter _ ih | ofSigned _ ih | ofCalled _ ih | ofAtom _ ih | ofPath _ ih =>
    exact ih
  | choice g₁ g₂ g₃ g₄ hcondition hconsequent halternate ihcondition ihconsequent ihalternate =>
    rw [(Derives.choice g₁ g₂ g₃ g₄ hcondition hconsequent halternate).shape.parse_eq,
      formOf_choice g₁ g₂ g₃ g₄ hcondition.shape hconsequent.shape, Form.tree, parse_append_gap,
      parse_pad, parse_gap_append, ihcondition, ihconsequent, ihalternate]
  | operation g₁ g₂ hgroup hop hg₁ hg₂ hleft hright ihleft ihright =>
    rw [(Derives.operation g₁ g₂ hgroup hop hg₁ hg₂ hleft hright).shape.parse_eq,
      formOf_operation g₁ g₂ hgroup hop hg₁ hg₂ hleft.shape hright.shape, Form.tree,
      parse_append_gap, parse_gap_append, ihleft, ihright]
  | not gap h ih =>
    have hshape := (Derives.not gap h).shape
    rw [hshape.parse_eq, formOf_unary hshape rfl, Form.tree, parse_gap_append, ih]
  | negate gap hdigit h ih =>
    have hshape := (Derives.negate gap hdigit h).shape
    have hne := List.append_ne_nil_of_right_ne_nil gap.text h.shape.ne_nil
    rw [hshape.parse_eq, formOf_unary hshape (splitUnary?_minus hne hdigit), Form.tree,
      parse_gap_append, ih]
  | @call callee _ gap arguments hne hcallee harguments ihcallee iharguments =>
    have hclosed := closed_argumentList fun argument hm => (harguments argument hm).shape.closed
    have hread : (arguments.map Argument.padded).map parse = arguments.map Argument.tree := by
      rw [List.map_map]
      refine List.map_congr_left fun argument hm => ?_
      rw [Function.comp_apply, Argument.padded, parse_pad, iharguments argument hm]
    rw [(Derives.call gap hne hcallee harguments).shape.parse_eq,
      formOf_call gap hcallee.shape hclosed, splitArguments_argumentList hne fun argument hm =>
      (harguments argument hm).shape, Form.tree, parse_append_gap, ihcallee, hread]
  | callEmpty gap inner hcallee ih =>
    rw [(Derives.callEmpty gap inner hcallee).shape.parse_eq,
      formOf_call gap hcallee.shape inner.closed, splitArguments_gap, Form.tree, parse_append_gap,
      ih, List.map_nil]
  | group g₁ g₂ h ih =>
    have hclosed := (g₁.closed.append h.shape.closed).append g₂.closed
    have hshape := (Derives.group g₁ g₂ h).shape
    rw [hshape.parse_eq, formOf_parenthesized hclosed, Form.tree, parse_pad, ih]
  | truth value => rw [(Derives.truth value).shape.parse_eq, formOf_truth, Form.tree]
  | number negative hwhole hfraction =>
    rw [(shape_numeral negative hwhole hfraction).parse_eq,
      formOf_numeral hwhole hfraction, Form.tree]
  | string hquote hcontent hescape =>
    rw [(Derives.string hquote hcontent hescape).shape.parse_eq,
      formOf_quoted hquote hcontent hescape, Form.tree]
  | name hname htruth => rw [(shape_name hname).parse_eq, formOf_name hname htruth, Form.tree]
  | property g₁ g₂ hname hobject ih =>
    rw [(Derives.property g₁ g₂ hname hobject).shape.parse_eq, formOf_property g₁ g₂ hname hobject,
      Form.tree, parse_append_gap, ih]

/-- Every expression of the grammar, with any white space around it, is read as the tree of its
derivation. -/
theorem parse_of_derives (before after : Gap) {text : Text} {tree : Expression}
    (h : Derives .choice text tree) :
    parse (before.text ++ text ++ after.text) = tree := by
  rw [parse_pad, h.parse_eq]

/-- In `a - -b?f(x, -1):!c` each minus sign has a meaning of its own. -/
theorem parse_of_derives_signs :
    parse ['a', ' ', '-', ' ', '-', 'b', '?', 'f', '(', 'x', ',', ' ', '-', '1', ')',
        ':', '!', 'c'] =
      .conditional (.binary .subtract (.identifier ['a']) (.unary .negate (.identifier ['b'])))
        (.call (.identifier ['f'])
          [.identifier ['x'], .literal (.number (numeralValue true ['1'] none))])
        (.unary .not (.identifier ['c'])) := by
  let empty : Gap := ⟨[], rfl⟩
  let space : Gap := ⟨[' '], rfl⟩
  have name (c : Char) (h : isName [c] = true) : Derives .called [c] (.identifier [c]) :=
    .ofAtom (.ofPath (.name h fun value => by cases value <;> exact fun he => nomatch he))
  have factor {text : Text} {tree : Expression} (h : Derives .signed text tree) :
      Derives (.operation 5) text tree := .ofTighter (.ofSigned h)
  have sum {text : Text} {tree : Expression} (h : Derives (.operation 4) text tree) :
      Derives (.operation 0) text tree := .ofTighter (.ofTighter (.ofTighter (.ofTighter h)))
  have single {text : Text} {tree : Expression} (h : Derives .signed text tree) :
      Derives (.operation 0) text tree := sum (.ofTighter (factor h))
  have hsign : ∀ c ∈ (empty.text ++ ['b']).head?, c.isDigit = false := by
    intro c hc
    rw [← Option.some.inj hc]
    rfl
  have htest := sum
    (.operation space space rfl (.tail _ (.head _)) (List.cons_ne_nil _ _) (List.cons_ne_nil _ _)
    (factor (.ofCalled (name 'a' rfl)))
      (.ofTighter (factor (.negate empty hsign (.ofCalled (name 'b' rfl))))))
  let first : Argument := ⟨empty, ['x'], empty, .identifier ['x']⟩
  let second : Argument :=
    ⟨space, ['-', '1'], empty, .literal (.number (numeralValue true ['1'] none))⟩
  have harguments : ∀ argument ∈ [first, second], Derives .choice argument.text argument.tree := by
    intro argument hm
    rcases List.mem_cons.mp hm with rfl | hm
    · exact .ofOperation (single (.ofCalled (name 'x' rfl)))
    · obtain rfl := List.mem_singleton.mp hm
      have hfraction : ∀ digits ∈ (none : Option Text), Text.isDigits digits = true := nofun
      have hnumber := Derives.number true (show Text.isDigits ['1'] = true from rfl) hfraction
      exact .ofOperation (single (.ofCalled (.ofAtom hnumber)))
  have hcall := Derives.call empty (List.cons_ne_nil _ _) (name 'f' rfl) harguments
  have hchoice := Derives.choice empty empty empty empty htest (single (.ofCalled hcall))
    (.ofOperation (single (.not empty (.ofCalled (name 'c' rfl)))))
  exact parse_of_derives empty empty hchoice

end ComponentFile.Expression
