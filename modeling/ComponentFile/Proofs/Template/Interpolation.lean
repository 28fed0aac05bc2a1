import ComponentFile.Proofs.Template.Limit

/-!
# One sweep over interpolations is enough

An opening that is refused sees another closing after the sweep, when an interpolation that stands
further inside has been taken out with the closing that both had in common. It is refused again: up
to the first mark that the sweep has put in, the text is as before, and where the mark stands now
there stood an opening brace, which is no blank, no sigil and no closing brace either.

The reading goes on one character behind a place where nothing is read. To go on behind both braces
of an opening that is refused would be no different (`flatMap_withoutBraces`), also in a run of
three braces or more.
-/

namespace ComponentFile.Template

/-- No interpolation is read exactly where none is written. -/
theorem interpolation_eq_none_iff {text : Text} :
    interpolation text = none ↔ ∀ inner rest, IsExpression inner →
      text ≠ opening ++ inner ++ closing ++ rest := by
  rw [Option.eq_none_iff_forall_ne_some]
  constructor
  · intro h inner rest hinner htext
    exact h _ (interpolation_eq_some_iff.mpr ⟨inner, rest, hinner, htext, rfl, rfl⟩)
  · rintro h ⟨expression, length⟩ hread
    obtain ⟨inner, rest, hinner, htext, -⟩ := interpolation_eq_some_iff.mp hread
    exact h inner rest hinner htext

/-! ## What decides about an expression -/

/-- The first character that is not blank decides whether an expression starts like a block
directive. -/
theorem startsWithSigil_trim (text : Text) :
    startsWithSigil text.trim = (text.find? fun c => !isBlank c).any fun c =>
      c == '@' || c == '/' || c == ':' := by
  rw [List.find?_not_eq_head?_dropWhile, Text.trim]
  change startsWithSigil text.trimStart.trimEnd = text.trimStart.head?.any _
  cases hstart : text.trimStart with
  | nil => rfl
  | cons c rest =>
    have hc : isBlank c = false := Text.isBlank_head_trimStart text c (by rw [hstart]; rfl)
    rw [Text.trimEnd_cons (by rw [Text.isBlankText_cons, hc, Bool.false_and])]
    rfl

/-- A text that can stand between braces still can when its part from an angle bracket on gives way
to a part that starts with an opening brace, since neither of the two is a blank or a sigil. -/
theorem IsExpression.of_mark {front back tail : Text} (h : IsExpression (front ++ '<' :: back))
    (hfree : '}' ∉ front ++ '{' :: tail) : IsExpression (front ++ '{' :: tail) where
  notBlank := Text.isBlankText_of_mem (List.mem_append_right _ List.mem_cons_self) (by decide)
  noSigil := by
    have hsigil := h.noSigil
    rw [startsWithSigil_trim, List.find?_append] at hsigil ⊢
    cases hfront : front.find? fun c => !isBlank c with
    | none => rfl
    | some c => rwa [hfront] at hsigil
  noBrace := hfree

/-! ## Refused openings -/

/-- Where two opening braces are refused, the second one with what follows is refused too. -/
private theorem interpolation_eq_none_of_opening {rest : Text}
    (h : interpolation (opening ++ rest) = none) :
    interpolation ('{' :: rest) = none := by
  rw [interpolation_eq_none_iff] at h ⊢
  intro inner after hinner he
  have hlonger : IsExpression ('{' :: inner) := by
    refine ⟨rfl, by rw [startsWithSigil_trim]; rfl, ?_⟩
    rw [List.mem_cons, not_or]
    exact ⟨by decide, hinner.noBrace⟩
  exact h _ after hlonger (congrArg ('{' :: ·) he)

private theorem segments_opening_of_none {rest : Text}
    (h : interpolation (opening ++ rest) = none) :
    Segment.segments interpolation (opening ++ rest) =
      .char '{' :: .char '{' :: Segment.segments interpolation rest := by
  rw [← Segment.segments_cons_of_none (interpolation_eq_none_of_opening h)]
  exact Segment.segments_cons_of_none h

/-- Reads an interpolation, or both braces of an opening that is refused. -/
def interpolationOrBraces : Recogniser (Option Text) := fun text =>
  match interpolation text with
  | some (expression, length) => some (some expression, length)
  | none => if Text.startsWith opening text then some (none, opening.length) else none

/-- Refused braces are characters like others. -/
def withoutBraces : Segment (Option Text) → List (Segment Text)
  | .char c => [.char c]
  | .item source none => Segment.plain source
  | .item source (some expression) => [.item source expression]

/-- It is all the same whether the reading goes on behind the first brace of a refused opening or
behind both. -/
theorem flatMap_withoutBraces (text : Text) :
    (Segment.segments interpolationOrBraces text).flatMap withoutBraces =
      Segment.segments interpolation text := by
  induction hlength : text.length using Nat.strong_induction_on generalizing text with
  | _ length ih =>
    have hbehind {source rest : Text} (htext : text = source ++ rest) (hne : source ≠ []) :
        (Segment.segments interpolationOrBraces rest).flatMap withoutBraces =
          Segment.segments interpolation rest := by
      refine ih rest.length ?_ rest rfl
      rw [← hlength, htext, List.length_append]
      exact Nat.lt_add_of_pos_left (List.length_pos_of_ne_nil hne)
    cases hread : interpolation text with
    | some found =>
      obtain ⟨inner, rest, hinner, rfl, -⟩ := interpolation_eq_some_iff.mp hread
      have hne : opening ++ inner ++ closing ≠ [] := List.cons_ne_nil _ _
      have hitem := hinner.interpolation_append rest
      have hboth : interpolationOrBraces (opening ++ inner ++ closing ++ rest) =
          some (some inner.trim, (opening ++ inner ++ closing).length) := by
        rw [interpolationOrBraces, hitem]
      rw [Segment.segments_append_of_some hne hitem, Segment.segments_append_of_some hne hboth,
        List.flatMap_cons, hbehind rfl hne]
      rfl
    | none =>
      by_cases hopening : opening <+: text
      · obtain ⟨rest, rfl⟩ := hopening
        have hne : opening ≠ [] := by decide
        have hboth : interpolationOrBraces (opening ++ rest) = some (none, opening.length) := by
          rw [interpolationOrBraces, hread,
            if_pos (Text.startsWith_iff.mpr (List.prefix_append _ _))]
        rw [segments_opening_of_none hread, Segment.segments_append_of_some hne hboth,
          List.flatMap_cons, hbehind rfl hne]
        rfl
      · have hboth : interpolationOrBraces text = none := by
          rw [interpolationOrBraces, hread, if_neg (mt Text.startsWith_iff.mp hopening)]
        cases text with
        | nil => rfl
        | cons c rest =>
          have htext : c :: rest = [c] ++ rest := rfl
          rw [Segment.segments_cons_of_none hread, Segment.segments_cons_of_none hboth,
            List.flatMap_cons, hbehind htext (List.cons_ne_nil c [])]
          rfl

/-! ## Sweeping -/

/-- A sweep turns the text into the result: where nothing is read a character stays, and each
interpolation gives way to the mark of a directive. -/
inductive Swept : Text → Text → Prop
  | nil : Swept [] []
  | char {c : Char} {rest result : Text} (hnone : interpolation (c :: rest) = none)
      (hrest : Swept rest result) :
      Swept (c :: rest) (c :: result)
  | mark {inner rest result : Text} (hinner : IsExpression inner) (directive : Directive)
      (hrest : Swept rest result) :
      Swept (opening ++ inner ++ closing ++ rest) (directive.placeholder.render ++ result)

private theorem swept_replaceFrom (skip offset : Nat) (text : Text) (registry : Registry) :
    Swept (text.drop skip)
      (Registry.replaceFrom (fun expression registry => (.interpolation expression, registry))
      offset (Segment.scan interpolation skip text) registry).1 := by
  induction text generalizing skip offset registry with
  | nil =>
    rw [List.drop_nil]
    exact .nil
  | cons c rest ih =>
    cases skip with
    | succ skip => exact ih skip offset registry
    | zero =>
      rw [List.drop_zero, Segment.scan]
      split
      · next value length hread =>
        obtain ⟨inner, after, hinner, htext, -, hlength⟩ := interpolation_eq_some_iff.mp hread
        have hwhole : (opening ++ inner ++ closing).length = length + 1 := by
          rw [← Nat.succ_eq_add_one, hlength, headerLength, List.length_append, List.length_append]
        have hdrop : rest.drop length = after := by
          rw [← List.drop_succ_cons (a := c), htext, ← hwhole, List.drop_left]
        rw [htext, ← hdrop]
        exact .mark hinner _ (ih length _ _)
      · next hread =>
        refine .char (Option.eq_none_iff_forall_ne_some.mpr ?_) (ih 0 _ _)
        rintro ⟨expression, length⟩ hsome
        obtain ⟨inner, -, -, -, -, rfl⟩ := interpolation_eq_some_iff.mp hsome
        exact hread _ _ hsome

theorem swept_replaceInterpolations (text : Text) (registry : Registry) :
    Swept text (replaceInterpolations text registry).1 :=
  swept_replaceFrom 0 0 text registry

/-- A mark starts with an angle bracket. -/
theorem exists_render (directive : Directive) :
    ∃ rest, directive.placeholder.render = '<' :: rest := by
  obtain ⟨inner, he, -⟩ := Placeholder.render_edges directive.isMarker_placeholder
  exact ⟨_, he⟩

/-- A brace in front of the result of a sweep is the brace in front of the text. -/
theorem Swept.exists_of_cons {text result : Text} {c : Char} (h : Swept text (c :: result))
    (hc : c ≠ '<') :
    ∃ rest, text = c :: rest ∧ Swept rest result := by
  generalize hwhole : c :: result = whole at h
  cases h with
  | nil => cases hwhole
  | char _ hrest =>
    obtain ⟨rfl, rfl⟩ := List.cons.inj hwhole
    exact ⟨_, rfl, hrest⟩
  | mark _ directive _ =>
    obtain ⟨rest, he⟩ := exists_render directive
    rw [he] at hwhole
    exact absurd (List.cons.inj hwhole).1 hc

/-- An expression in the result of a sweep comes from one in the text. Up to the first mark the two
are equal, and where the mark stands there was an opening brace. -/
theorem Swept.exists_expression {text result : Text} (h : Swept text result) {inner rest : Text}
    (hresult : result = inner ++ closing ++ rest) (hfree : '}' ∉ inner) :
    ∃ source after, text = source ++ closing ++ after ∧ '}' ∉ source ∧
      (source = inner ∨ ∃ front back tail, inner = front ++ '<' :: back ∧
        source = front ++ '{' :: tail) := by
  induction h generalizing inner with
  | nil =>
    rw [List.append_assoc] at hresult
    cases (List.append_eq_nil_iff.mp hresult.symm).2
  | @char c text result _ hrest ih =>
    cases inner with
    | nil =>
      obtain ⟨rfl, rfl⟩ := List.cons.inj hresult
      obtain ⟨after, rfl, -⟩ := hrest.exists_of_cons (by decide)
      exact ⟨[], after, rfl, List.not_mem_nil, .inl rfl⟩
    | cons d inner =>
      obtain ⟨rfl, rfl⟩ := List.cons.inj hresult
      rw [List.mem_cons, not_or] at hfree
      obtain ⟨source, after, rfl, hsource, hsame⟩ := ih rfl hfree.2
      refine ⟨c :: source, after, rfl, ?_, ?_⟩
      · rw [List.mem_cons, not_or]
        exact ⟨hfree.1, hsource⟩
      · obtain rfl | ⟨front, back, tail, rfl, rfl⟩ := hsame
        · exact .inl rfl
        · exact .inr ⟨c :: front, back, tail, rfl, rfl⟩
  | @mark expression text result hexpression directive _ _ =>
    obtain ⟨mark, he⟩ := exists_render directive
    rw [he] at hresult
    cases inner with
    | nil => cases hresult
    | cons d inner =>
      obtain ⟨rfl, -⟩ := List.cons.inj hresult
      refine ⟨opening ++ expression, text, rfl, ?_, .inr ⟨[], inner, '{' :: expression, rfl, rfl⟩⟩
      rw [List.mem_append, not_or]
      exact ⟨by decide, hexpression.noBrace⟩

/-- Nothing is read at any place of the result of a sweep. -/
theorem Swept.interpolation_eq_none {text result : Text} (h : Swept text result) {tail : Text}
    (htail : tail <:+ result) : interpolation tail = none := by
  induction h with
  | nil =>
    rw [List.suffix_nil.mp htail]
    rfl
  | @char c text result hnone hrest ih =>
    rcases List.suffix_cons_iff.mp htail with rfl | htail
    · rw [interpolation_eq_none_iff] at hnone ⊢
      intro inner rest hinner he
      -- the second brace and the expression come from the text
      obtain ⟨rfl, hsecond⟩ := List.cons.inj he
      rw [hsecond] at hrest
      obtain ⟨text, rfl, hinside⟩ := hrest.exists_of_cons (by decide)
      obtain ⟨source, after, rfl, hfree, hsame⟩ := hinside.exists_expression rfl hinner.noBrace
      refine hnone source after ?_ rfl
      obtain rfl | ⟨front, back, tail, rfl, rfl⟩ := hsame
      · exact hinner
      · exact hinner.of_mark hfree
    · exact ih htail
  | @mark inner text result _ directive _ ih =>
    obtain ⟨front, he⟩ := htail
    rcases List.append_eq_append_iff.mp he with ⟨piece, hmark, rfl⟩ | ⟨piece, -, hrest⟩
    · cases piece with
      | nil => exact ih List.suffix_rfl
      | cons d piece =>
        have hpass := atOpening_interpolation.passes_of_not_mem (not_mem_render directive)
        exact hpass _ _ (List.cons_ne_nil d piece) (hmark ▸ List.suffix_append _ _)
    · exact ih (hrest ▸ List.suffix_append _ _)

/-- A second sweep finds nothing: whatever directives there are by then, it adds none, and it leaves
the text as it is. -/
theorem replaceInterpolations_twice (text : Text) (before after : Registry) :
    replaceInterpolations (replaceInterpolations text before).1 after =
      ((replaceInterpolations text before).1, after) := by
  have hswept := swept_replaceInterpolations text before
  have hplain : IsPlain (Segment.segments interpolation (replaceInterpolations text before).1) := by
    intro source value hm
    obtain ⟨tail, length, htail, hread, -⟩ := Segment.exists_isSuffix_of_mem_scan hm
    rw [hswept.interpolation_eq_none htail] at hread
    cases hread
  rw [replaceInterpolations, Registry.replace, replaceFrom_of_isPlain hplain,
    Segment.sources_segments]

end ComponentFile.Template
