import ComponentFile.Proofs.Expression.Slices
import Mathlib.Data.List.Nodup

/-!
# Groups, calls, properties and progress

The cuts at parentheses, at commas and at the last point. With them all forms are told by byte
offsets as they are told by characters, and whatever the form, what is read next has fewer bytes
than the text: reading makes progress.
-/

namespace ComponentFile.Expression

open Text

/-! ## Parentheses -/

private theorem nodup_openers_parensFrom {position : Nat} {waiting : List Nat} {marked : Marked}
    (hwaiting : ∀ place ∈ waiting, place < position) (hnodup : waiting.Nodup) :
    ((parensFrom position waiting marked).map Prod.fst).Nodup := by
  induction marked generalizing position waiting with
  | nil => exact List.nodup_nil
  | cons head rest ih =>
    obtain ⟨c, mark⟩ := head
    have hkept : ∀ place ∈ waiting, place < position + 1 :=
      fun place hm => Nat.lt_succ_of_lt (hwaiting place hm)
    rw [parensFrom.eq_def]
    dsimp only
    split
    · refine ih (List.forall_mem_cons.mpr ⟨Nat.lt_succ_self position, hkept⟩)
        (List.nodup_cons.mpr ⟨?_, hnodup⟩)
      exact fun hm => Nat.lt_irrefl _ (hwaiting position hm)
    split
    · cases waiting with
      | nil => exact ih hkept hnodup
      | cons last outer =>
        obtain ⟨hlast, houter⟩ := List.nodup_cons.mp hnodup
        have hothers : ∀ place ∈ outer, place < position + 1 :=
          fun place hm => hkept place (List.mem_cons_of_mem _ hm)
        refine List.nodup_cons.mpr ⟨fun hm => ?_, ih hothers houter⟩
        obtain ⟨⟨opener, closer⟩, hpair, he⟩ := List.mem_map.mp hm
        obtain rfl : opener = last := he
        rcases (parens_of_mem_parensFrom hpair hothers).1 with hm | ⟨hle, -⟩
        · exact hlast hm
        · have hlt := hwaiting opener List.mem_cons_self
          omega
    · exact ih hkept hnodup

private theorem find?_matchingParens {text : Text} {opener closer : Nat}
    (h : (opener, closer) ∈ matchingParens text) :
    (matchingParens text).find? (fun pair => pair.1 == opener) = some (opener, closer) := by
  have hnodup : ((matchingParens text).map Prod.fst).Nodup :=
    nodup_openers_parensFrom (fun _ hm => absurd hm List.not_mem_nil) List.nodup_nil
  cases hfind : (matchingParens text).find? fun pair => pair.1 == opener with
  | none => exact absurd (beq_self_eq_true opener) (List.find?_eq_none.mp hfind _ h)
  | some pair =>
    have hopener := List.find?_some hfind
    rw [beq_iff_eq] at hopener
    rw [List.inj_on_of_nodup_map hnodup (List.mem_of_find?_eq_some hfind) h hopener]

/-- A text has a front up to each of its characters. -/
theorem exists_of_getElem?_eq_some {text : Text} {position : Nat} {c : Char}
    (h : text[position]? = some c) :
    ∃ front back, text = front ++ c :: back ∧ front.length = position := by
  obtain ⟨hbound, hget⟩ := List.getElem?_eq_some_iff.mp h
  refine ⟨text.take position, text.drop (position + 1), ?_,
    List.length_take_of_le (Nat.le_of_lt hbound)⟩
  rw [← hget, List.getElem_cons_drop, List.take_append_drop]

/-- A pair of parentheses cuts the text into what stands before, between and behind them. -/
theorem exists_of_mem_matchingParens {text : Text} {opener closer : Nat}
    (h : (opener, closer) ∈ matchingParens text) :
    ∃ front inner back, text = front ++ '(' :: inner ++ ')' :: back ∧
      (opener = front.length ∧ offsetOf text opener = front.byteSize) ∧
      closer = (front ++ '(' :: inner).length ∧
        offsetOf text closer = (front ++ '(' :: inner).byteSize := by
  obtain ⟨hopener, hcloser, hlt⟩ := parens_of_mem_matchingParens h
  obtain ⟨upto, back, rfl, rfl⟩ := exists_of_getElem?_eq_some hcloser
  rw [List.getElem?_append_left hlt] at hopener
  obtain ⟨front, inner, rfl, rfl⟩ := exists_of_getElem?_eq_some hopener
  refine ⟨front, inner, back, rfl, ⟨rfl, ?_⟩, rfl, offsetOf_length _ _⟩
  rw [List.append_assoc, offsetOf_length]

/-- A text is a group if one pair of parentheses wraps it. -/
theorem stripGroup?_eq_some_iff {text inner : Text} :
    stripGroup? text = some inner ↔ text = parenthesized inner ∧
      (0, inner.length + 1) ∈ matchingParens text := by
  have hlength : (inner ++ [')']).length = inner.length + 1 := List.length_append
  constructor
  · intro h
    obtain rfl := eq_of_stripGroup? h
    refine ⟨rfl, ?_⟩
    rw [parenthesized, stripGroup?, hlength] at h
    exact (Option.ite_none_right_eq_some.mp h).1
  · rintro ⟨rfl, hpair⟩
    rw [parenthesized, stripGroup?, hlength]
    exact (if_pos hpair).trans (congrArg some List.dropLast_concat)

/-- A text ends with a closing parenthesis if its last byte is one. -/
theorem charAt?_last (front : Text) :
    charAt? ((front ++ [')']).byteSize - 1) (front ++ [')']) = some ')' := by
  rw [byteSize_concat (by decide), Nat.add_sub_cancel]
  exact charAt?_append_cons (by decide) front []

/-- What stands behind a parenthesis is empty if the parenthesis is the last byte. -/
theorem eq_nil_of_byteSize_eq {front back : Text}
    (h : front.byteSize = (front ++ ')' :: back).byteSize - 1) : back = [] := by
  rw [byteSize_append, byteSize_cons, utf8Size_of_isAscii (by decide)] at h
  have hlength := length_le_byteSize back
  exact List.eq_nil_of_length_eq_zero (by omega)

/-- The pair that the first byte opens is the pair that the first character opens. -/
private theorem find?_opener_zero (text : Text) :
    (matchingParens text).find? ((fun pair => pair.1 == 0) ∘ fun pair =>
        (offsetOf text pair.1, offsetOf text pair.2)) =
      (matchingParens text).find? fun pair => pair.1 == 0 := by
  refine List.find?_congr fun pair hm => ?_
  obtain ⟨front, inner, back, -, ⟨hopener, hoffset⟩, -⟩ := exists_of_mem_matchingParens hm
  rw [Function.comp_apply, hoffset, hopener]
  cases front with
  | nil => rfl
  | cons c front =>
    have hsize : byteSize (c :: front) ≠ 0 := Nat.ne_of_gt (Nat.lt_add_right _ c.utf8Size_pos)
    rw [beq_eq_false_iff_ne.mpr hsize]
    rfl

namespace Sliced

theorem group_eq (text : Text) : group text = .ok (stripGroup? text) := by
  have hascii : IsAscii '(' := by decide
  rw [group, parenOffsets_eq, List.find?_map, find?_opener_zero]
  cases hstrip : stripGroup? text with
  | some inner =>
    obtain ⟨rfl, hpair⟩ := stripGroup?_eq_some_iff.mp hstrip
    have hguard : charAt? 0 (parenthesized inner) = some '(' ∧
        charAt? ((parenthesized inner).byteSize - 1) (parenthesized inner) = some ')' :=
      ⟨charAt?_append_cons hascii [] _, charAt?_last ('(' :: inner)⟩
    have hcloser : offsetOf (parenthesized inner) (inner.length + 1) = byteSize ('(' :: inner) :=
      offsetOf_length ('(' :: inner) [')']
    have hlast : byteSize ('(' :: inner) = (parenthesized inner).byteSize - 1 := by
      rw [parenthesized, ← List.cons_append, byteSize_concat (by decide), Nat.add_sub_cancel]
    have hinner : slice 1 (byteSize ('(' :: inner)) (parenthesized inner) = .ok inner :=
      slice_eq_ok_iff.mpr ⟨['('], [')'], rfl, rfl, rfl⟩
    rw [if_pos hguard, find?_matchingParens hpair, Option.map_some]
    dsimp only
    rw [hcloser, if_pos hlast, hinner]
    rfl
  | none =>
    split
    · cases hfind : (matchingParens text).find? fun pair => pair.1 == 0 with
      | none => rfl
      | some pair =>
        obtain ⟨opener, closer⟩ := pair
        refine if_neg fun hlast => ?_
        -- the pair would wrap the text
        have hpair := List.mem_of_find?_eq_some hfind
        have hzero := List.find?_some hfind
        obtain rfl : opener = 0 := beq_iff_eq.mp hzero
        obtain ⟨front, inner, back, htext, ⟨hfront, -⟩, hcloser, hoffset⟩ :=
          exists_of_mem_matchingParens hpair
        obtain rfl := List.eq_nil_of_length_eq_zero hfront.symm
        dsimp only at hlast
        rw [hoffset, htext] at hlast
        obtain rfl := eq_nil_of_byteSize_eq hlast
        rw [hcloser] at hpair
        have hwraps := stripGroup?_eq_some_iff.mpr ⟨htext, hpair⟩
        rw [hstrip] at hwraps
        cases hwraps
    · rfl

end Sliced

/-! ## Calls -/

/-- There is always a piece. -/
theorem Marked.pieces_ne_nil (target : Char) (marked : Marked) : pieces target marked ≠ [] := by
  have hfront : target ∉ shown [] := List.not_mem_nil
  obtain ⟨first, others, hpieces, -⟩ := pieces_append hfront marked
  rw [hpieces]
  exact List.cons_ne_nil _ _

namespace Sliced

private theorem argumentsFrom_append {text : Text} {front : List Nat}
    (h : ∀ offset ∈ front, charAt? offset text ≠ some ',') (start : Nat) (rest : List Nat) :
    argumentsFrom text start (front ++ rest) = argumentsFrom text start rest := by
  induction front with
  | nil => rfl
  | cons offset front ih =>
    obtain ⟨hoffset, hfront⟩ := List.forall_mem_cons.mp h
    rw [List.cons_append, argumentsFrom, if_neg hoffset, ih hfront]

/-- The pieces that count as arguments: all but a blank one at the end. -/
def counted (pieces : List Text) : List Text :=
  match pieces.getLast? with
  | some last => if last.isBlankText then pieces.dropLast else pieces
  | none => pieces

private theorem counted_cons_cons (piece next : Text) (others : List Text) :
    counted (piece :: next :: others) = piece :: counted (next :: others) := by
  rw [counted, counted, List.getLast?_cons_cons, List.dropLast_cons_cons]
  split
  · split <;> rfl
  · rfl

/-- Cutting at the commas among the offsets gives the pieces of the text. The piece that was begun
at `start` is `current` so far. -/
private theorem argumentsFrom_eq {text done current : Text} {marked : Marked}
    (htext : text = done ++ current ++ marked.text) {first : Text} {others : List Text}
    (hpieces : Marked.pieces ',' marked = first :: others) :
    argumentsFrom text done.byteSize (marked.offsetsFrom (done ++ current).byteSize) =
      .ok ((counted ((current ++ first) :: others)).map trim) := by
  have hascii : IsAscii ',' := by decide
  induction marked generalizing done current first others with
  | nil =>
    obtain ⟨rfl, rfl⟩ := List.cons.inj (show [[]] = first :: others from hpieces)
    rw [Marked.text_nil, List.append_nil] at htext
    have htail : slice done.byteSize text.byteSize text = .ok current :=
      htext ▸ slice_back done current rfl
    rw [Marked.offsetsFrom, argumentsFrom, htail, ok_bind, List.append_nil]
    simp only [counted, List.getLast?_singleton]
    split <;> rfl
  | cons head rest ih =>
    obtain ⟨c, mark⟩ := head
    obtain ⟨next, more, hnext⟩ := List.exists_cons_of_ne_nil (Marked.pieces_ne_nil ',' rest)
    rw [Marked.text_cons] at htext
    rw [Marked.pieces] at hpieces
    rw [Marked.offsetsFrom]
    by_cases hcomma : (mark && c == ',') = true
    · rw [if_pos hcomma] at hpieces
      rw [Bool.and_eq_true, beq_iff_eq] at hcomma
      obtain ⟨rfl, rfl⟩ := hcomma
      obtain ⟨rfl, rfl⟩ := List.cons.inj hpieces
      have hargument : slice done.byteSize (done ++ current).byteSize text = .ok current :=
        slice_eq_ok_iff.mpr ⟨done, ',' :: Marked.text rest, htext, rfl,
          byteSize_append done current⟩
      have hfound : charAt? (done ++ current).byteSize text = some ',' := by
        rw [htext]
        exact charAt?_append_cons hascii _ _
      have hmore : text = done ++ current ++ [','] ++ [] ++ Marked.text rest := by
        rw [htext, List.append_nil, List.append_cons]
      have hlater := ih hmore hnext
      rw [List.append_nil, byteSize_concat hascii, List.nil_append] at hlater
      rw [if_pos rfl, utf8Size_of_isAscii hascii, List.range'_one, List.singleton_append,
        argumentsFrom, if_pos hfound, hargument, ok_bind, hlater, ok_bind, hnext, counted_cons_cons,
        List.append_nil]
      rfl
    · have hskip := argumentsFrom_append
        (fun offset hm => htext ▸ charAt?_ne_of_mem hcomma hm) done.byteSize
        (Marked.offsetsFrom ((done ++ current).byteSize + c.utf8Size) rest)
      have hmore : text = done ++ (current ++ [c]) ++ Marked.text rest := by
        rw [htext, List.append_cons, List.append_assoc done]
      have hlater := ih hmore hnext
      rw [if_neg hcomma, hnext] at hpieces
      obtain ⟨rfl, rfl⟩ := List.cons.inj hpieces
      rw [← List.append_assoc, byteSize_append, byteSize_cons, byteSize_nil, Nat.add_zero,
        ← List.append_cons] at hlater
      rw [hskip, hlater]

theorem arguments_eq (text : Text) : arguments text = .ok ((splitArguments text).map trim) := by
  have htext : text = [] ++ [] ++ (topLevel text).text := (text_topLevel text).symm
  obtain ⟨first, others, hpieces⟩ :=
    List.exists_cons_of_ne_nil (Marked.pieces_ne_nil ',' (topLevel text))
  have hsplit : splitArguments text = counted (first :: others) := congrArg counted hpieces
  rw [arguments, hsplit]
  split
  · next hblank =>
    have hjoin := Marked.join_pieces ',' (topLevel text)
    rw [hpieces, text_topLevel] at hjoin
    cases others with
    | nil =>
      obtain rfl : first = text := hjoin
      rw [counted, List.getLast?_singleton]
      dsimp only
      rw [if_pos hblank]
      rfl
    | cons next more =>
      -- a comma is no blank
      have hcomma : ',' ∈ text := by
        have hcut : join [','] (first :: next :: more) =
            first ++ [','] ++ join [','] (next :: more) := rfl
        rw [← hjoin, hcut, List.append_assoc]
        exact List.mem_append_right _ List.mem_cons_self
      rw [isBlankText_of_mem hcomma (by decide)] at hblank
      cases hblank
  · rw [topLevelOffsets_eq]
    exact argumentsFrom_eq htext hpieces

/-- The pair that the last byte closes is the pair that the last character closes. -/
private theorem find?_closer_last (text : Text) :
    (matchingParens text).find?
        ((fun pair => pair.2 == text.byteSize - 1) ∘ fun pair =>
          (offsetOf text pair.1, offsetOf text pair.2)) =
      (matchingParens text).find? fun pair => pair.2 + 1 == text.length := by
  refine List.find?_congr fun pair hm => ?_
  obtain ⟨front, inner, back, htext, -, hcloser, hoffset⟩ := exists_of_mem_matchingParens hm
  rw [Function.comp_apply, hoffset, hcloser, Bool.eq_iff_iff, beq_iff_eq, beq_iff_eq, htext]
  generalize front ++ '(' :: inner = upto
  constructor
  · intro hsize
    rw [eq_nil_of_byteSize_eq hsize, List.length_append, List.length_singleton]
  · intro hlength
    have hback : back = [] := by
      rw [List.length_append, List.length_cons] at hlength
      exact List.eq_nil_of_length_eq_zero (by omega)
    rw [hback, byteSize_concat (by decide), Nat.add_sub_cancel]

theorem call_eq (text : Text) :
    call text = .ok ((splitCall? text).map fun parts => (parts.1.trim, parts.2.map trim)) := by
  rw [call, parenOffsets_eq, List.find?_map, find?_closer_last, splitCall?]
  dsimp only
  cases hfind : (matchingParens text).find? fun pair => pair.2 + 1 == text.length with
  | none => split <;> rfl
  | some pair =>
    obtain ⟨opener, closer⟩ := pair
    have hlast := List.find?_some hfind
    obtain ⟨front, inner, back, rfl, ⟨hopener, hoffset⟩, hcloser, -⟩ :=
      exists_of_mem_matchingParens (List.mem_of_find?_eq_some hfind)
    obtain rfl : back = [] := by
      simp only [beq_iff_eq, hcloser, List.length_append, List.length_cons] at hlast
      exact List.eq_nil_of_length_eq_zero (by omega)
    have hcallee : slice 0 front.byteSize (front ++ '(' :: inner ++ [')']) = .ok front := by
      rw [List.append_assoc]
      exact slice_front _ _
    have hinner : slice (front.byteSize + 1) ((front ++ '(' :: inner ++ [')']).byteSize - 1)
        (front ++ '(' :: inner ++ [')']) = .ok inner := by
      refine slice_eq_ok_iff.mpr ⟨front ++ ['('], [')'], ?_,
        (byteSize_concat (by decide) _).symm, ?_⟩
      · rw [List.append_cons front]
      · rw [byteSize_concat (by decide), Nat.add_sub_cancel, List.append_cons, byteSize_append]
    rw [if_pos (charAt?_last _), Option.map_some, Option.bind_eq_bind, Option.bind_some]
    dsimp only
    rw [hoffset, hcallee, ok_bind, List.dropLast_concat, hopener, List.take_left, ← List.drop_drop,
      List.drop_left]
    split
    · rfl
    · rw [hinner, ok_bind, arguments_eq, ok_bind]
      rfl

end Sliced

/-! ## Properties -/

private theorem exists_last_of_mem {c : Char} {text : Text} (h : c ∈ text) :
    ∃ before rest : Text, text = before ++ c :: rest ∧ c ∉ rest := by
  obtain ⟨back, front, hreverse, hback⟩ := List.eq_append_cons_of_mem (List.mem_reverse.mpr h)
  refine ⟨front.reverse, back.reverse, ?_, fun hm => hback (List.mem_reverse.mp hm)⟩
  rw [← List.reverse_reverse text, hreverse, List.reverse_append, List.reverse_cons,
    List.append_assoc, List.singleton_append]

namespace Sliced

/-- The last offset at which a character is found is where the text is cut at its last
occurrence. -/
private theorem find?_range_reverse {c : Char} (hc : IsAscii c) (text : Text) :
    ((List.range text.byteSize).reverse.find? fun offset => charAt? offset text == some c) =
      (cutLast? [c] text).map fun cut => cut.1.byteSize := by
  by_cases hm : c ∈ text
  · obtain ⟨before, rest, rfl, hrest⟩ := exists_last_of_mem hm
    have hsize : (before ++ c :: rest).byteSize = before.byteSize + 1 + rest.byteSize := by
      rw [List.append_cons, byteSize_append, byteSize_concat hc]
    have hbehind : ((List.range rest.byteSize).map (before.byteSize + 1 + ·)).reverse.find?
        (fun offset => charAt? offset (before ++ c :: rest) == some c) = none := by
      rw [List.find?_eq_none]
      intro offset hm hfound
      obtain ⟨inner, -, rfl⟩ := List.mem_map.mp (List.mem_reverse.mp hm)
      rw [beq_iff_eq, List.append_cons, ← byteSize_concat hc, charAt?_append] at hfound
      exact hrest (mem_of_charAt?_eq_some hfound)
    rw [cutLast?_of_not_mem hrest, hsize, List.range_add, List.range_succ, List.reverse_append,
      List.reverse_concat, List.find?_append, hbehind, Option.none_or, List.find?_cons_of_pos]
    · rfl
    · rw [charAt?_append_cons hc, beq_self_eq_true]
  · rw [cutLast?_eq_none hm, Option.map_none, List.find?_eq_none]
    intro offset _ hfound
    exact hm (mem_of_charAt?_eq_some (beq_iff_eq.mp hfound))

theorem property_eq (text : Text) :
    property text = .ok ((splitProperty? text).map fun parts => (parts.1.trim, parts.2)) := by
  rw [property, splitProperty?]
  split
  · rfl
  rw [find?_range_reverse (by decide)]
  cases hcut : cutLast? ['.'] text with
  | none => rfl
  | some cut =>
    obtain ⟨object, name⟩ := cut
    have htext : text = object ++ '.' :: name := by
      rw [eq_of_cutLast?_eq_some hcut, List.append_assoc, List.singleton_append]
    have hobject : slice 0 object.byteSize text = .ok object := htext ▸ slice_front _ _
    have hname : slice (object.byteSize + 1) text.byteSize text = .ok name := by
      rw [htext, List.append_cons]
      exact slice_back _ _ (byteSize_concat (by decide) object).symm
    rw [Option.map_some, Option.bind_eq_bind, Option.bind_some]
    dsimp only
    rw [hobject, ok_bind, hname, ok_bind]
    split <;> rfl

end Sliced

/-! ## Forms -/

/-- The form with the blanks around its parts taken off, where a cut by offsets takes them off. -/
def Form.trimmed : Form → Form
  | .conditional condition consequent alternate =>
    .conditional condition.trim consequent.trim alternate.trim
  | .binary op left right => .binary op left.trim right.trim
  | .unary op operand => .unary op operand
  | .group inner => .group inner
  | .call callee arguments => .call callee.trim (arguments.map trim)
  | .property object name => .property object.trim name
  | .literal value => .literal value
  | .identifier name => .identifier name
  | .unknown raw => .unknown raw

namespace Sliced

/-- The outermost form of a trimmed text, found by byte offsets. -/
def form (text : Text) : Except BadSlice Form := do
  match ← conditional text with
  | some (condition, consequent, alternate) => return .conditional condition consequent alternate
  | none =>
  match ← binary text with
  | some (op, left, right) => return .binary op left right
  | none =>
  match ← unary text with
  | some (op, operand) => return .unary op operand
  | none =>
  match ← group text with
  | some inner => return .group inner
  | none =>
  match ← call text with
  | some (callee, arguments) => return .call callee arguments
  | none =>
  match ← property text with
  | some (object, name) => return .property object name
  | none =>
  match literal? text with
  | some value => return .literal value
  | none => return if isName text then .identifier text else .unknown text

theorem form_eq (text : Text) : form text = .ok (Form.of text).trimmed := by
  rw [form, conditional_eq, binary_eq, unary_eq, group_eq, call_eq, property_eq, Form.of]
  cases splitConditional? text with
  | some parts => rfl
  | none =>
  cases splitBinary? text with
  | some parts => rfl
  | none =>
  cases splitUnary? text with
  | some parts => rfl
  | none =>
  cases stripGroup? text with
  | some inner => rfl
  | none =>
  cases splitCall? text with
  | some parts => rfl
  | none =>
  cases splitProperty? text with
  | some parts => rfl
  | none =>
  cases literal? text with
  | some value => rfl
  | none => cases isName text <;> rfl

end Sliced

/-- Blanks around a text do not matter. -/
theorem parse_trim (text : Text) : parse text.trim = parse text := by
  obtain ⟨front, back, hfront, hback, htext⟩ := exists_pad text
  have hpad := parse_pad ⟨front, hfront⟩ ⟨back, hback⟩ text.trim
  rw [← htext] at hpad
  exact hpad.symm

private theorem tree_trimmed (form : Form) : form.trimmed.tree parse = form.tree parse := by
  cases form with
  | call callee arguments =>
    simp only [Form.trimmed, Form.tree, parse_trim, List.map_map, Function.comp_def]
  | _ => simp only [Form.trimmed, Form.tree, parse_trim]

/-! ## Progress -/

private theorem byteSize_le_of_mem_splitArguments {text argument : Text}
    (h : argument ∈ splitArguments text) :
    argument.byteSize ≤ text.byteSize := by
  rcases join_splitArguments text with hjoin | ⟨last, -, hjoin⟩
  · have hinfix : argument <:+: join [','] (splitArguments text) := isInfix_join h
    exact byteSize_le_of_isInfix (hjoin ▸ hinfix)
  · have hinfix : argument <:+: join [','] (splitArguments text ++ [last]) :=
      isInfix_join (List.mem_append_left _ h)
    exact byteSize_le_of_isInfix (hjoin ▸ hinfix)

/-- Every form leaves out at least one byte of the text. -/
theorem Covers.byteSize_lt {form : Form} {text part : Text} (h : Covers form text)
    (hpart : part ∈ form.parts) :
    part.byteSize < text.byteSize := by
  cases h with
  | conditional condition consequent alternate =>
    have hmark := '?'.utf8Size_pos
    simp only [Form.parts, List.mem_cons, List.not_mem_nil, or_false] at hpart
    rw [byteSize_append, byteSize_cons, byteSize_append, byteSize_cons]
    rcases hpart with rfl | rfl | rfl <;> omega
  | binary op left right =>
    have hsymbol := Nat.lt_of_lt_of_le op.length_symbol_pos (length_le_byteSize op.symbol)
    simp only [Form.parts, List.mem_cons, List.not_mem_nil, or_false] at hpart
    rw [byteSize_append, byteSize_append]
    rcases hpart with rfl | rfl <;> omega
  | unary op operand =>
    have hsymbol : 0 < byteSize op.symbol := by cases op <;> decide
    obtain rfl := List.mem_singleton.mp hpart
    rw [byteSize_append]
    omega
  | group inner =>
    have hopener := '('.utf8Size_pos
    obtain rfl := List.mem_singleton.mp hpart
    rw [parenthesized, byteSize_cons, byteSize_append]
    omega
  | call callee inner =>
    have hopener := '('.utf8Size_pos
    rw [byteSize_append, parenthesized, byteSize_cons, byteSize_append]
    rcases List.mem_cons.mp hpart with rfl | hpart
    · omega
    · have hle := byteSize_le_of_mem_splitArguments hpart
      omega
  | property object hname =>
    have hpoint := '.'.utf8Size_pos
    obtain rfl := List.mem_singleton.mp hpart
    rw [byteSize_append, byteSize_cons]
    omega
  | literal | identifier | unknown => cases hpart

/-- The parts of a trimmed form are at most as long as those of the form. -/
private theorem exists_of_mem_parts_trimmed {form : Form} {part : Text}
    (h : part ∈ form.trimmed.parts) :
    ∃ whole ∈ form.parts, part.byteSize ≤ whole.byteSize := by
  -- where parts are trimmed, all parts that are read on are
  have hall {parts : List Text} (h : part ∈ parts.map trim) :
      ∃ whole ∈ parts, part.byteSize ≤ whole.byteSize := by
    obtain ⟨whole, hm, rfl⟩ := List.mem_map.mp h
    exact ⟨whole, hm, byteSize_trim_le whole⟩
  cases form with
  | unary | group | literal | identifier | unknown => exact ⟨part, h, Nat.le_refl _⟩
  | conditional | binary | call | property => exact hall h

/-- All cuts of a text by byte offsets succeed, and they give what the cuts by characters give. -/
structure SlicesInPlace (text : Text) : Prop where
  conditional : Sliced.conditional text =
    .ok ((splitConditional? text).map fun parts => (parts.1.trim, parts.2.1.trim, parts.2.2.trim))
  binary : Sliced.binary text =
    .ok ((splitBinary? text).map fun parts => (parts.1, parts.2.1.trim, parts.2.2.trim))
  unary : Sliced.unary text = .ok (splitUnary? text)
  group : Sliced.group text = .ok (stripGroup? text)
  call : Sliced.call text =
    .ok ((splitCall? text).map fun parts => (parts.1.trim, parts.2.map trim))
  arguments : Sliced.arguments text = .ok ((splitArguments text).map trim)
  property : Sliced.property text =
    .ok ((splitProperty? text).map fun parts => (parts.1.trim, parts.2))

/-- Every text is sliced in place, and reading it goes on with parts that have fewer bytes than the
trimmed text. -/
theorem slicesInPlace_and_progress (text : Text) :
    SlicesInPlace text ∧
      ∃ form, Sliced.form text.trim = .ok form ∧ parse text = form.tree parse ∧
        ∀ part ∈ form.parts, part.byteSize < text.trim.byteSize := by
  refine ⟨?_, (Form.of text.trim).trimmed, Sliced.form_eq text.trim, ?_, fun part hpart => ?_⟩
  · exact {
      conditional := Sliced.conditional_eq text
      binary := Sliced.binary_eq text
      unary := Sliced.unary_eq text
      group := Sliced.group_eq text
      call := Sliced.call_eq text
      arguments := Sliced.arguments_eq text
      property := Sliced.property_eq text }
  · rw [tree_trimmed, parse_eq]
  · obtain ⟨whole, hwhole, hle⟩ := exists_of_mem_parts_trimmed hpart
    exact Nat.lt_of_le_of_lt hle ((covers_formOf text.trim).byteSize_lt hwhole)

end ComponentFile.Expression
