import ComponentFile.Proofs.Block.Assembly
import ComponentFile.Proofs.Text.Pattern
import ComponentFile.Proofs.Text.Slicing
import Mathlib.Order.Nat

/-!
# Elements without patterns

The script and the style of a file are described by a pattern: an opening tag, white space and a
line feed if there is one, any text, a line feed if there is one, white space, and the closing tag.
Three of the five parts in the middle may take white space. The preferred match leaves the white
space at the front to the content, apart from one line feed, and takes all white space at its end.
So the pattern finds exactly the elements that run from the first opening tag to the next closing
tag.
-/

namespace ComponentFile.Extraction

open Pattern Item

/-- The pattern of an element with the given name. -/
def elementPattern (name : Text) : Pattern where
  opening := literal (openingTag name) ++ [.few isBlank, .optional (· == '\n')]
  content := [.few fun _ => true]
  closing := .optional (· == '\n') :: .many isBlank :: literal (closingTag name)

section

variable (name : Text)

private theorem allEnds_blanks_closingTag (before after : Text) :
    allEnds (.many isBlank :: literal (closingTag name)) ⟨before, after⟩ =
      ((Text.after? (closingTag name) (after.dropWhile isBlank)).map fun rest =>
        [⟨(closingTag name).reverse ++ ((after.takeWhile isBlank).reverse ++ before),
          rest⟩]).getD [] := by
  have htag (before after : Text) : allEnds (literal (closingTag name)) ⟨before, after⟩ =
      ((Text.after? (closingTag name) after).map fun rest =>
        [⟨(closingTag name).reverse ++ before, rest⟩]).getD [] := by
    rw [← List.append_nil (literal _), allEnds_literal_append]
    rfl
  rw [allEnds_many, htag]
  intro before c after hc
  have hne : '<' ≠ c := by
    rintro rfl
    cases hc
  rw [htag, closingTag, List.cons_append, Text.after?, if_neg hne]
  rfl

/-- The closing part takes all white space before the tag, by its line feed or not. -/
theorem head?_closing (before after : Text) :
    (allEnds (elementPattern name).closing ⟨before, after⟩).head? =
      (Text.after? (closingTag name) (after.dropWhile isBlank)).map fun rest =>
        ⟨(closingTag name).reverse ++ ((after.takeWhile isBlank).reverse ++ before), rest⟩ := by
  have hblanks : (allEnds (.many isBlank :: literal (closingTag name)) ⟨before, after⟩).head? =
      (Text.after? (closingTag name) (after.dropWhile isBlank)).map fun rest =>
        ⟨(closingTag name).reverse ++ ((after.takeWhile isBlank).reverse ++ before), rest⟩ := by
    rw [allEnds_blanks_closingTag]
    cases Text.after? (closingTag name) (after.dropWhile isBlank) <;> rfl
  rw [← hblanks, elementPattern]
  dsimp only
  cases after with
  | nil => rw [allEnds_optional_nil]
  | cons c after =>
    rw [allEnds_optional_cons]
    by_cases hc : c = '\n'
    · -- with and without the line feed the same white space is taken
      have hblank : isBlank '\n' = true := by decide
      have hsame : allEnds (.many isBlank :: literal (closingTag name)) ⟨'\n' :: before, after⟩ =
          allEnds (.many isBlank :: literal (closingTag name)) ⟨before, '\n' :: after⟩ := by
        rw [allEnds_blanks_closingTag, allEnds_blanks_closingTag, List.dropWhile_cons_of_pos hblank,
          List.takeWhile_cons_of_pos hblank, List.reverse_cons, List.append_assoc,
          List.singleton_append]
      rw [hc, beq_self_eq_true, if_pos rfl, hsame, List.head?_append, Option.or_self]
    · rw [beq_eq_false_iff_ne.mpr hc, if_neg Bool.false_ne_true, List.nil_append]

private theorem contentEnd?_of_isBlankText {inner : Text} (hblank : inner.isBlankText = true)
    (before after : Text) :
    (elementPattern name).contentEnd? before (inner ++ closingTag name ++ after) =
      some (⟨before, inner ++ closingTag name ++ after⟩,
        ⟨(closingTag name).reverse ++ (inner.reverse ++ before), after⟩) := by
  have hall : ∀ c ∈ inner, isBlank c = true := List.all_eq_true.mp hblank
  have htag : ¬isBlank '<' = true := by decide
  have hdrop : (closingTag name ++ after).dropWhile isBlank = closingTag name ++ after :=
    List.dropWhile_cons_of_neg htag
  have htake : (closingTag name ++ after).takeWhile isBlank = [] := List.takeWhile_cons_of_neg htag
  have hafter : Text.after? (closingTag name) ((inner ++ closingTag name ++ after).dropWhile
      isBlank) = some after := by
    rw [List.append_assoc, List.dropWhile_append_of_pos hall, hdrop, Text.after?_append]
  have hclosing := head?_closing name before (inner ++ closingTag name ++ after)
  rw [hafter, Option.map_some, List.append_assoc, List.takeWhile_append_of_pos hall, htake,
    List.append_nil, ← List.append_assoc] at hclosing
  exact contentEnd?_of_closing hclosing

/-- The content stops before the white space in front of the first closing tag. -/
private theorem contentEnd?_append {inner : Text} (after : Text)
    (h : ¬closingTag name <:+: inner ++ (closingTag name).dropLast) (before : Text) :
    ∃ contentStop, (elementPattern name).contentEnd? before (inner ++ closingTag name ++ after) =
        some (contentStop, ⟨(closingTag name).reverse ++ (inner.reverse ++ before), after⟩) ∧
      contentStop.before = inner.trimEnd.reverse ++ before := by
  induction inner generalizing before with
  | nil => exact ⟨_, contentEnd?_of_isBlankText name rfl before after, rfl⟩
  | cons c inner ih =>
    by_cases hblank : Text.isBlankText (c :: inner) = true
    · refine ⟨_, contentEnd?_of_isBlankText name hblank before after, ?_⟩
      rw [Text.trimEnd_eq_nil_iff.mpr hblank]
      rfl
    · rw [Bool.not_eq_true] at hblank
      obtain ⟨contentStop, hend, hstop⟩ :=
        ih (fun hholds => h (hholds.trans (List.suffix_cons c _).isInfix)) (c :: before)
      -- behind the white space at the front there is more of the content, and no tag starts in it
      have hnone : Text.after? (closingTag name)
            ((c :: (inner ++ closingTag name ++ after)).dropWhile isBlank) =
          none := by
        have hdrop : (c :: (inner ++ closingTag name ++ after)).dropWhile isBlank =
            Text.trimStart (c :: inner) ++ closingTag name ++ after := by
          rw [← List.cons_append, ← List.cons_append, List.append_assoc, List.append_assoc]
          exact Text.trimStart_append hblank _
        have hne : Text.trimStart (c :: inner) ≠ [] := by
          rw [Text.trimStart, ne_eq, List.dropWhile_eq_nil_iff, ← List.all_eq_true,
            Bool.not_eq_true]
          exact hblank
        obtain ⟨front, hfront⟩ := Text.trimStart_isSuffix (c :: inner)
        rw [← hfront, List.append_assoc] at h
        rw [hdrop]
        exact Text.after?_of_not_infix after hne fun hholds =>
          h (hholds.trans (List.suffix_append front _).isInfix)
      have hclosing := head?_closing name before (c :: (inner ++ closingTag name ++ after))
      rw [hnone, Option.map_none] at hclosing
      refine ⟨contentStop, ?_, ?_⟩
      · rw [List.cons_append, List.cons_append, contentEnd?_cons hclosing, hend, List.reverse_cons,
          List.append_assoc, List.singleton_append]
      · rw [hstop, Text.trimEnd_cons hblank, List.reverse_cons, List.append_assoc,
          List.singleton_append]

private theorem contentEnd?_eq_none {before after : Text} (h : ¬closingTag name <:+: after) :
    (elementPattern name).contentEnd? before after = none := by
  rw [contentEnd?, List.findSome?_eq_none_iff]
  intro place hplace
  have hsuffix := (List.dropWhile_suffix isBlank).trans (after_isSuffix_of_mem_fewFrom hplace)
  have hafter : Text.after? (closingTag name) (place.after.dropWhile isBlank) = none := by
    rw [Text.after?_eq_none_iff]
    exact fun hstarts => h (hstarts.isInfix.trans hsuffix.isInfix)
  rw [head?_closing, hafter]
  rfl

/-! ## The opening part -/

theorem dropLineFeed_of_head?_ne {text : Text} (h : text.head? ≠ some '\n') :
    dropLineFeed text = text := by
  unfold dropLineFeed
  split
  · exact absurd rfl h
  · rfl

/-- The opening part is best without white space before the line feed. -/
private theorem exists_allEnds_lead (before rest : Text) :
    ∃ others, allEnds [.few isBlank, .optional (· == '\n')] ⟨before, rest⟩ =
      allEnds [.optional (· == '\n')] ⟨before, rest⟩ ++ others := by
  cases rest with
  | nil => exact ⟨[], rfl⟩
  | cons c rest => exact ⟨_, rfl⟩

/-- The preferred end of the opening part is behind one line feed, if there is one, and leaves the
content as it would be found without it. -/
private theorem exists_lead {rest inner after : Text}
    (h : Text.cut? (closingTag name) rest = some (inner, after)) :
    ∃ lead, inner = lead ++ dropLineFeed inner ∧
      dropLineFeed rest = dropLineFeed inner ++ closingTag name ++ after ∧
      ∀ before, ∃ others, allEnds [.few isBlank, .optional (· == '\n')] ⟨before, rest⟩ =
        ⟨lead.reverse ++ before, dropLineFeed rest⟩ :: others := by
  have hrest := Text.eq_of_cut?_eq_some h
  by_cases hfeed : rest.head? = some '\n'
  · cases inner with
    | nil =>
      rw [hrest] at hfeed
      cases hfeed
    | cons c inner =>
      rw [hrest] at hfeed
      obtain rfl := Option.some.inj hfeed
      refine ⟨['\n'], rfl, hrest ▸ rfl, fun before => ?_⟩
      obtain ⟨others, hothers⟩ := exists_allEnds_lead before rest
      refine ⟨⟨before, rest⟩ :: others, ?_⟩
      rw [hothers, hrest]
      rfl
  · have hinner : dropLineFeed inner = inner := by
      apply dropLineFeed_of_head?_ne
      intro hhead
      apply hfeed
      rw [hrest, List.append_assoc, List.head?_append, hhead]
      rfl
    refine ⟨[], ?_, ?_, fun before => ?_⟩
    · rw [hinner, List.nil_append]
    · rw [dropLineFeed_of_head?_ne hfeed, hinner, hrest]
    · obtain ⟨others, hothers⟩ := exists_allEnds_lead before rest
      refine ⟨others, ?_⟩
      rw [hothers, dropLineFeed_of_head?_ne hfeed]
      cases rest with
      | nil => rfl
      | cons c rest =>
        have hne : (c == '\n') = false := beq_eq_false_iff_ne.mpr fun hc => hfeed (hc ▸ rfl)
        rw [allEnds_optional_cons, hne, if_neg Bool.false_ne_true]
        rfl

/-! ## Matches -/

/-- The preferred match at a place is found by its opening part, and the end of its content. -/
theorem head?_matchesAt_element (before after : Text) :
    ((elementPattern name).matchesAt ⟨before, after⟩).head? =
      (Text.after? (openingTag name) after).bind fun rest =>
        (allEnds [.few isBlank, .optional (· == '\n')]
          ⟨(openingTag name).reverse ++ before, rest⟩).findSome? fun contentStart =>
            ((elementPattern name).contentEnd? contentStart.before contentStart.after).map
              fun (contentStop, stop) => ⟨⟨before, after⟩, contentStart, contentStop, stop⟩ := by
  rw [head?_matchesAt_of_content rfl]
  have hopening : allEnds (elementPattern name).opening ⟨before, after⟩ =
      ((Text.after? (openingTag name) after).map fun rest =>
        allEnds [.few isBlank, .optional (· == '\n')]
          ⟨(openingTag name).reverse ++ before, rest⟩).getD [] :=
    allEnds_literal_append _ before after
  rw [hopening]
  cases Text.after? (openingTag name) after <;> rfl

/-- Where an opening tag stands and a closing tag follows, there is a match up to the first closing
tag. -/
private theorem exists_match {rest inner after : Text}
    (h : Text.cut? (closingTag name) rest = some (inner, after)) (before : Text) :
    ∃ found,
        ((elementPattern name).matchesAt ⟨before, openingTag name ++ rest⟩).head? = some found ∧
      found.occurrence =
        { content := (dropLineFeed inner).trimEnd, start := before.byteSize
          stop := before.byteSize + (openingTag name).byteSize + inner.byteSize +
            (closingTag name).byteSize } ∧
      found.stop = ⟨(openingTag name ++ inner ++ closingTag name).reverse ++ before, after⟩ := by
  obtain ⟨lead, hlead, hdrop, hopening⟩ := exists_lead name h
  obtain ⟨others, hothers⟩ := hopening ((openingTag name).reverse ++ before)
  have hfirst : ¬closingTag name <:+: dropLineFeed inner ++ (closingTag name).dropLast := by
    have hnot : ¬closingTag name <:+: inner ++ (closingTag name).dropLast :=
      Text.not_isInfix_of_cut?_eq_some h
    rw [hlead, List.append_assoc] at hnot
    exact fun hholds => hnot (hholds.trans (List.suffix_append lead _).isInfix)
  obtain ⟨contentStop, hend, hstop⟩ :=
    contentEnd?_append name after hfirst (lead.reverse ++ ((openingTag name).reverse ++ before))
  refine ⟨⟨⟨before, openingTag name ++ rest⟩,
    ⟨lead.reverse ++ ((openingTag name).reverse ++ before), dropLineFeed rest⟩, contentStop,
    ⟨(openingTag name ++ inner ++ closingTag name).reverse ++ before, after⟩⟩, ?_, ?_, rfl⟩
  · rw [head?_matchesAt_element, Text.after?_append, Option.bind_some, hothers, List.findSome?_cons,
      hdrop, hend, Option.map_some]
    have hbefore : (closingTag name).reverse ++ ((dropLineFeed inner).reverse ++
        (lead.reverse ++ ((openingTag name).reverse ++ before))) =
          (openingTag name ++ inner ++ closingTag name).reverse ++ before := by
      rw [← List.append_assoc (dropLineFeed inner).reverse, ← List.reverse_append, ← hlead]
      simp only [List.reverse_append, List.append_assoc]
    simp only [hbefore]
  · rw [Match.occurrence]
    simp only [hstop, List.length_append, Nat.add_sub_cancel, List.take_left', List.reverse_reverse,
      Text.byteSize_append, Text.byteSize_reverse]
    congr 1
    omega

/-- Without a closing tag behind the opening one there is no match. -/
private theorem head?_matchesAt_eq_none {before after : Text}
    (h : ∀ rest, after = openingTag name ++ rest → ¬closingTag name <:+: rest) :
    ((elementPattern name).matchesAt ⟨before, after⟩).head? = none := by
  rw [head?_matchesAt_element, Option.bind_eq_none_iff]
  intro rest hrest
  rw [List.findSome?_eq_none_iff]
  intro contentStart hstart
  have hsuffix := after_isSuffix_of_mem_allEnds hstart
  have hnone : ¬closingTag name <:+: contentStart.after :=
    fun hholds => h rest (Text.after?_eq_some_iff.mp hrest) (hholds.trans hsuffix.isInfix)
  rw [contentEnd?_eq_none name hnone]
  rfl

private theorem search_eq_none {before after : Text}
    (h : ∀ front rest, after = front ++ openingTag name ++ rest → ¬closingTag name <:+: rest) :
    (elementPattern name).search before after = none := by
  have hhere : ((elementPattern name).matchesAt ⟨before, after⟩).head? = none :=
    head?_matchesAt_eq_none name fun rest hrest => h [] rest hrest
  induction after generalizing before with
  | nil => exact hhere
  | cons c after ih =>
    have hrest (front rest : Text) (he : after = front ++ openingTag name ++ rest) :
        ¬closingTag name <:+: rest :=
      h (c :: front) rest (by rw [he]; rfl)
    rw [search_cons hhere]
    exact ih hrest (head?_matchesAt_eq_none name fun rest he => hrest [] rest he)

/-- A search passes over the text before the first opening tag. -/
private theorem search_of_cut {text front rest : Text}
    (h : Text.cut? (openingTag name) text = some (front, rest)) (before : Text) :
    (elementPattern name).search before text =
      (elementPattern name).search (front.reverse ++ before) (openingTag name ++ rest) := by
  induction text generalizing front before with
  | nil => cases h
  | cons c text ih =>
    rw [Text.cut?] at h
    split at h
    · next hafter =>
      obtain ⟨rfl, rfl⟩ := Prod.mk.inj (Option.some.inj h)
      rw [Text.after?_eq_some_iff.mp hafter]
      rfl
    · next hnone =>
      obtain ⟨⟨front, rest⟩, hcut, he⟩ := Option.map_eq_some_iff.mp h
      obtain ⟨rfl, rfl⟩ := Prod.mk.inj he
      have hhere : ((elementPattern name).matchesAt ⟨before, c :: text⟩).head? = none := by
        rw [head?_matchesAt_element, hnone, Option.bind_none]
      rw [search_cons hhere, ih hcut, List.reverse_cons, List.append_assoc, List.singleton_append]

/-- Behind the first opening tag without a closing one there is no element. -/
private theorem not_isInfix_of_cut {text front rest : Text}
    (h : Text.cut? (openingTag name) text = some (front, rest))
    (hclosing : ¬closingTag name <:+: rest) {other back : Text}
    (htext : text = other ++ openingTag name ++ back) :
    ¬closingTag name <:+: back := by
  have hlength := (Text.isPrefix_of_cut?_eq_some h htext).length_le
  have hfirst := Text.eq_of_cut?_eq_some h
  have hback : back <:+ text := htext ▸ List.suffix_append _ _
  have hrest : rest <:+ text := hfirst ▸ List.suffix_append _ _
  have hsuffix : back <:+ rest := by
    apply List.suffix_of_suffix_length_le hback hrest
    have hsize := congrArg List.length (hfirst.symm.trans htext)
    simp only [List.length_append] at hsize
    omega
  exact fun hholds => hclosing (hholds.trans hsuffix.isInfix)

/-- The pattern finds the elements, from any place of a text on. -/
private theorem map_occurrence_searchAll (before text : Text) :
    ((elementPattern name).searchAll ⟨before, text⟩).map Match.occurrence =
      elementsFrom name before.byteSize text := by
  generalize hoffset : before.byteSize = offset
  fun_induction elementsFrom name offset text generalizing before with
  | case1 offset text hopening =>
    have hnone : (elementPattern name).search before text = none := by
      apply search_eq_none
      rintro front rest rfl
      rw [Text.cut?_eq_none_iff] at hopening
      exact absurd (List.infix_append front _ rest) hopening
    rw [searchAll_eq_nil hnone]
    rfl
  | case2 offset text front rest hopening hclosing =>
    have hnone : (elementPattern name).search before text = none := by
      apply search_eq_none
      intro other back htext
      exact not_isInfix_of_cut name hopening (Text.cut?_eq_none_iff.mp hclosing) htext
    rw [searchAll_eq_nil hnone]
    rfl
  | case3 offset text front rest hopening inner after hclosing start stop ih =>
    obtain ⟨found, hfound, hoccurrence, hstop⟩ :=
      exists_match name hclosing (front.reverse ++ before)
    have hsearch : (elementPattern name).search before text = some found := by
      rw [search_of_cut name hopening]
      exact search_eq_some hfound
    have hconsumes : (elementPattern name).Consumes := consumes_of_one List.mem_cons_self
    have hbefore : Text.byteSize (front.reverse ++ before) = offset + front.byteSize := by
      rw [Text.byteSize_append, Text.byteSize_reverse, hoffset, Nat.add_comm]
    have hnext :=
      ih ((openingTag name ++ inner ++ closingTag name).reverse ++ (front.reverse ++ before)) (by
      rw [Text.byteSize_append, Text.byteSize_reverse, hbefore, Text.byteSize_append,
        Text.byteSize_append]
      omega)
    rw [hconsumes.searchAll_eq hsearch, List.map_cons, hstop, hnext, hoccurrence, hbefore]

/-- The pattern of an element finds exactly the elements of a file. -/
theorem occurrences_elementPattern (text : Text) :
    (elementPattern name).occurrences text = elements name text :=
  map_occurrence_searchAll name [] text

end

/-! ## Delimiters by their positions -/

/-- From a place on, the first opening delimiter stands at `first`, and the first closing delimiter
that is at least `gap` behind it stands at `second`. -/
structure Delimited (opens closes : Nat → Prop) (gap place first second : Nat) : Prop where
  opening : IsLeast {position | place ≤ position ∧ opens position} first
  closing : IsLeast {position | first + gap ≤ position ∧ closes position} second

/-- Searching for delimiters again and again, each time from the end of the last closing delimiter
on, which is `width` behind its start, finds so many pairs. -/
inductive Rounds (opens closes : Nat → Prop) (gap width : Nat) : Nat → Nat → Prop
  | done {place : Nat} (h : ∀ first second, ¬Delimited opens closes gap place first second) :
      Rounds opens closes gap width place 0
  | next {place first second count : Nat} (h : Delimited opens closes gap place first second)
      (hrest : Rounds opens closes gap width (second + width) count) :
      Rounds opens closes gap width place (count + 1)

/-- If two delimiters stand in the right order there is a first pair. -/
private theorem exists_delimited {opens closes : Nat → Prop} {gap first second : Nat}
    (hopens : opens first) (hle : first + gap ≤ second) (hcloses : closes second) :
    ∃ first second, Delimited opens closes gap 0 first second := by
  classical
  have hsome : ∃ position, 0 ≤ position ∧ opens position := ⟨first, Nat.zero_le _, hopens⟩
  have hfirst := Nat.isLeast_find hsome
  have hbound : Nat.find hsome ≤ first := hfirst.2 ⟨Nat.zero_le _, hopens⟩
  have hlast : ∃ position, Nat.find hsome + gap ≤ position ∧ closes position :=
    ⟨second, by omega, hcloses⟩
  exact ⟨_, _, hfirst, Nat.isLeast_find hlast⟩

/-- What the byte offsets of its tags say about the elements of a name in a text. -/
structure DescribesElements (name text : Text) (found : Option Block) : Prop where
  /-- There is an element if some opening tag has a closing tag behind it. -/
  present : found.isSome = true ↔ ∃ start close, Text.StandsAt (openingTag name) text start ∧
    start + (openingTag name).byteSize ≤ close ∧ Text.StandsAt (closingTag name) text close
  /-- The first element runs from the first opening tag to the first closing tag behind it. Its
  content is the text between them without one line feed at its front and without the blanks at its
  end. -/
  first : ∀ block ∈ found, ∃ close inner,
    Delimited (Text.StandsAt (openingTag name) text) (Text.StandsAt (closingTag name) text)
      (openingTag name).byteSize 0 block.start close ∧
    block.stop = close + (closingTag name).byteSize ∧
    Text.slice? (block.start + (openingTag name).byteSize) close text = some inner ∧
    block.content = (dropLineFeed inner).trimEnd
  /-- The elements are counted by repeated searches. -/
  count : ∀ block ∈ found,
    Rounds (Text.StandsAt (openingTag name) text) (Text.StandsAt (closingTag name) text)
      (openingTag name).byteSize (closingTag name).byteSize 0 block.occurrences

section

variable {name : Text}

/-- The two cuts that find an element find the first opening and the first closing tag. -/
theorem delimited_of_cut {text front rest inner after : Text}
    (hopening : Text.cut? (openingTag name) text = some (front, rest))
    (hclosing : Text.cut? (closingTag name) rest = some (inner, after)) (before : Text) :
    Delimited (Text.StandsAt (openingTag name) (before ++ text))
      (Text.StandsAt (closingTag name) (before ++ text))
      (openingTag name).byteSize before.byteSize (before.byteSize + front.byteSize)
      (before.byteSize + front.byteSize + (openingTag name).byteSize + inner.byteSize) := by
  constructor
  · exact Text.isLeast_of_cut hopening before
  · have hleast := Text.isLeast_of_cut hclosing (before ++ front ++ openingTag name)
    have htext : before ++ front ++ openingTag name ++ rest = before ++ text := by
      rw [Text.eq_of_cut?_eq_some hopening]
      simp only [List.append_assoc]
    rwa [htext, Text.byteSize_append, Text.byteSize_append] at hleast

/-- The elements from a place on are those of repeated searches. -/
private theorem rounds_elementsFrom (before text : Text) :
    Rounds (Text.StandsAt (openingTag name) (before ++ text))
      (Text.StandsAt (closingTag name) (before ++ text))
      (openingTag name).byteSize (closingTag name).byteSize before.byteSize
      (elementsFrom name before.byteSize text).length := by
  generalize hoffset : before.byteSize = offset
  fun_induction elementsFrom name offset text generalizing before with
  | case1 offset text hopening =>
    apply Rounds.done
    intro start close hfirst
    subst hoffset
    exact Text.not_standsAt_of_cut hopening hfirst.opening.1.1 hfirst.opening.1.2
  | case2 offset text front rest hopening hclosing =>
    apply Rounds.done
    intro start close hfirst
    subst hoffset
    obtain rfl := hfirst.opening.unique (Text.isLeast_of_cut hopening before)
    obtain ⟨hle, hstands⟩ := hfirst.closing.1
    have htext : before ++ text = before ++ front ++ openingTag name ++ rest := by
      rw [Text.eq_of_cut?_eq_some hopening]
      simp only [List.append_assoc]
    rw [htext] at hstands
    refine Text.not_standsAt_of_cut hclosing ?_ hstands
    rwa [Text.byteSize_append, Text.byteSize_append]
  | case3 offset text front rest hopening inner after hclosing start stop ih =>
    subst hoffset
    have htext : before ++ front ++ openingTag name ++ inner ++ closingTag name ++ after =
        before ++ text := by
      rw [Text.eq_of_cut?_eq_some hopening, Text.eq_of_cut?_eq_some hclosing]
      simp only [List.append_assoc]
    have hsize : Text.byteSize (before ++ front ++ openingTag name ++ inner ++ closingTag name) =
        stop := by
      simp only [Text.byteSize_append, stop, start]
    have hrest := ih _ hsize
    rw [htext] at hrest
    exact .next (delimited_of_cut hopening hclosing before) hrest

/-- An element that is found was cut out by its two tags. -/
theorem exists_cuts_of_elementsFrom {offset : Nat} {text : Text} {first : Occurrence}
    {others : List Occurrence} (h : elementsFrom name offset text = first :: others) :
    ∃ front rest inner after, Text.cut? (openingTag name) text = some (front, rest) ∧
      Text.cut? (closingTag name) rest = some (inner, after) ∧
      first.start = offset + front.byteSize ∧
      first.stop = first.start + (openingTag name).byteSize + inner.byteSize +
        (closingTag name).byteSize ∧
      first.content = (dropLineFeed inner).trimEnd := by
  rw [elementsFrom] at h
  split at h
  · cases h
  · next front rest hopening =>
    split at h
    · cases h
    · next inner after hclosing =>
      obtain ⟨rfl, -⟩ := List.cons.inj h
      exact ⟨front, rest, inner, after, hopening, hclosing, rfl, rfl, rfl⟩

/-- The elements of a file are those that the offsets of tags describe. -/
theorem describesElements_elements (text : Text) :
    DescribesElements name text (Block.ofOccurrences? (elements name text)) := by
  have hrounds : Rounds (Text.StandsAt (openingTag name) text)
      (Text.StandsAt (closingTag name) text)
      (openingTag name).byteSize (closingTag name).byteSize 0 (elements name text).length :=
        rounds_elementsFrom [] text
  cases hfound : elements name text with
  | nil =>
    rw [hfound] at hrounds
    cases hrounds with
    | done hnone =>
      refine ⟨⟨nofun, ?_⟩, nofun, nofun⟩
      rintro ⟨start, close, hopening, hle, hclosing⟩
      obtain ⟨first, second, hfirst⟩ := exists_delimited hopening hle hclosing
      exact absurd hfirst (hnone first second)
  | cons first others =>
    obtain ⟨front, rest, inner, after, hopening, hclosing, hstart, hstop, hcontent⟩ :=
      exists_cuts_of_elementsFrom hfound
    have helement := delimited_of_cut hopening hclosing []
    rw [List.nil_append, Text.byteSize_nil, ← hstart] at helement
    have hslice : Text.slice? (first.start + (openingTag name).byteSize)
        (first.start + (openingTag name).byteSize + inner.byteSize) text = some inner := by
      rw [Text.slice?_eq_some_iff]
      refine ⟨front ++ openingTag name, closingTag name ++ after, ?_, ?_, ?_⟩
      · rw [Text.eq_of_cut?_eq_some hopening, Text.eq_of_cut?_eq_some hclosing]
        simp only [List.append_assoc]
      · rw [Text.byteSize_append, hstart, Nat.zero_add]
      · rw [Text.byteSize_append, hstart, Nat.zero_add]
    constructor
    · refine ⟨fun _ => ⟨_, _, helement.opening.1.2, helement.closing.1.1, helement.closing.1.2⟩,
        fun _ => rfl⟩
    · intro block hblock
      obtain rfl := Option.some.inj hblock
      exact ⟨_, inner, helement, hstop, hslice, hcontent⟩
    · intro block hblock
      obtain rfl := Option.some.inj hblock
      rwa [hfound] at hrounds

end

/-- The script and the style of a file are what their patterns find, and what the offsets of their
tags describe. -/
theorem describesElements_uiLogic_style (text : Text) :
    ((of text).uiLogic = Block.ofOccurrences? ((elementPattern scriptName).occurrences text) ∧
      DescribesElements scriptName text (of text).uiLogic) ∧
    (of text).style = Block.ofOccurrences? ((elementPattern styleName).occurrences text) ∧
      DescribesElements styleName text (of text).style := by
  refine ⟨⟨?_, ?_⟩, ?_, ?_⟩
  · rw [occurrences_elementPattern]
    rfl
  · exact describesElements_elements text
  · rw [occurrences_elementPattern]
    rfl
  · exact describesElements_elements text

end ComponentFile.Extraction
