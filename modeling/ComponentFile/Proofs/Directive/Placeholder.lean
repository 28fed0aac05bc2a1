import ComponentFile.Directive.Placeholder
import ComponentFile.Proofs.Template.Segment
import ComponentFile.Proofs.Text.Cutting

/-!
# Placeholders inside text

A placeholder is spelled with an angle bracket at each end and neither angle brackets nor braces
between them. So two spelled placeholders never overlap, a reading finds every one of them, and a
text may be cut next to a brace or outside an angle bracket without cutting a placeholder. Cutting a
text anywhere can lose placeholders but never makes new ones.
-/

namespace ComponentFile.Placeholder

/-- The text of a comment with this marker and these digits. -/
def written (marker digits : Text) : Text := opening ++ marker ++ '_' :: digits ++ closing

/-- The text spells the placeholder: a comment with the marker, an underscore and the decimal index,
perhaps with leading zeros. -/
def Spells (placeholder : Placeholder) (text : Text) : Prop :=
  isMarker placeholder.marker = true ∧ placeholder.index < indexBound ∧
    ∃ digits : Text, digits.isDigits = true ∧ digits.digitsValue = placeholder.index ∧
      text = written placeholder.marker digits

/-- No connected piece of the text spells a placeholder. -/
def Absent (text : Text) : Prop :=
  ∀ placeholder piece, Spells placeholder piece → ¬ piece <:+: text

/-- A character that can stand only at the ends of a placeholder, or not at all. -/
def isEdge (c : Char) : Bool := c == '<' || c == '>' || c == '{' || c == '}'

private theorem not_isEdge_of_isMarkerChar {c : Char} (h : isMarkerChar c = true) :
    isEdge c = false := by
  simp only [isMarkerChar, isEdge, Bool.or_eq_true, beq_iff_eq, Bool.or_eq_false_iff,
    beq_eq_false_iff_ne] at h ⊢
  rcases h with h | rfl
  · refine ⟨⟨⟨?_, ?_⟩, ?_⟩, ?_⟩ <;> rintro rfl <;> exact absurd h (by decide)
  · decide

private theorem not_isEdge_of_isDigit {c : Char} (h : c.isDigit = true) : isEdge c = false := by
  simp only [isEdge, Bool.or_eq_false_iff, beq_eq_false_iff_ne]
  refine ⟨⟨⟨?_, ?_⟩, ?_⟩, ?_⟩ <;> rintro rfl <;> exact absurd h (by decide)

theorem isMarker_iff {text : Text} :
    isMarker text = true ↔ text ≠ [] ∧ ∀ c ∈ text, isMarkerChar c = true := by
  simp only [isMarker, Bool.and_eq_true, Bool.not_eq_true', List.isEmpty_eq_false_iff, ne_eq,
    List.all_eq_true]

theorem isDigits_iff {text : Text} :
    text.isDigits = true ↔ text ≠ [] ∧ ∀ c ∈ text, c.isDigit = true := by
  simp only [Text.isDigits, Bool.and_eq_true, Bool.not_eq_true', List.isEmpty_eq_false_iff, ne_eq,
    List.all_eq_true]

/-- A written comment has an angle bracket at each end and no edge character between them. -/
theorem written_edges {marker digits : Text} (hm : isMarker marker = true)
    (hd : digits.isDigits = true) :
    ∃ inner, written marker digits = '<' :: '!' :: (inner ++ ['>']) ∧
      ∀ c ∈ inner, isEdge c = false := by
  refine ⟨['-', '-', ' '] ++ marker ++ '_' :: digits ++ [' ', '-', '-'],
    by simp [written, opening, closing], ?_⟩
  intro c hc
  simp only [List.append_assoc, List.mem_append, List.mem_cons, List.not_mem_nil, or_false] at hc
  rcases hc with (rfl | rfl | rfl) | hc | (rfl | hc) | rfl | rfl | rfl
  · decide
  · decide
  · decide
  · exact not_isEdge_of_isMarkerChar ((isMarker_iff.mp hm).2 c hc)
  · decide
  · exact not_isEdge_of_isDigit ((isDigits_iff.mp hd).2 c hc)
  · decide
  · decide
  · decide

/-- A spelled placeholder has an angle bracket at each end and no edge character between them. -/
theorem Spells.edges {placeholder : Placeholder} {text : Text} (h : Spells placeholder text) :
    ∃ inner, text = '<' :: (inner ++ ['>']) ∧ ∀ c ∈ inner, isEdge c = false := by
  obtain ⟨hm, _, digits, hd, _, rfl⟩ := h
  obtain ⟨inner, he, hinner⟩ := written_edges hm hd
  refine ⟨'!' :: inner, he, ?_⟩
  intro c hc
  rcases List.mem_cons.mp hc with rfl | hc
  · decide
  · exact hinner c hc

/-- A written comment is read as a placeholder exactly when its index is in range. -/
theorem recognise_written {marker digits : Text} (hm : isMarker marker = true)
    (hd : digits.isDigits = true) (rest : Text) :
    recognise (written marker digits ++ rest) =
      if digits.digitsValue < indexBound then
        some ({ marker, index := digits.digitsValue }, (written marker digits).length)
      else none := by
  have hspace : ' ' ∉ marker ++ '_' :: digits := by
    intro hs
    simp only [List.mem_append, List.mem_cons] at hs
    rcases hs with hs | hs | hs
    · exact absurd ((isMarker_iff.mp hm).2 _ hs) (by decide)
    · exact absurd hs (by decide)
    · exact absurd ((isDigits_iff.mp hd).2 _ hs) (by decide)
  have hscore : '_' ∉ digits := fun hu => absurd ((isDigits_iff.mp hd).2 _ hu) (by decide)
  have hcut : Text.cut? closing (marker ++ '_' :: digits ++ closing ++ rest) =
      some (marker ++ '_' :: digits, rest) := Text.cut?_of_not_mem hspace
  simp only [List.append_assoc] at hcut
  simp only [recognise, written, List.append_assoc, Text.after?_append, Option.bind_eq_bind,
    Option.bind_some, hcut, ofInner?, Text.cutLast?_of_not_mem hscore, index?, hd, hm]
  by_cases hb : digits.digitsValue < indexBound
  · simp [hb]
    omega
  · simp [hb]

/-- A placeholder is read at the start of a text exactly when the text starts with a spelling of
it. -/
theorem recognise_eq_some_iff {text : Text} {placeholder : Placeholder} {length : Nat} :
    recognise text = some (placeholder, length) ↔
      ∃ piece rest, Spells placeholder piece ∧ text = piece ++ rest ∧ length = piece.length := by
  constructor
  · intro h
    simp only [recognise, ofInner?, Option.bind_eq_bind, Option.bind_eq_some_iff, Prod.exists] at h
    obtain ⟨rest, hrest, inner, after, hcut, read,
      ⟨marker, digits, hlast, index, hindex, hread⟩, h⟩ := h
    simp only [Option.pure_def, Option.some.injEq, Prod.mk.injEq] at h
    obtain ⟨rfl, rfl⟩ := h
    simp only [Option.pure_def, Option.ite_none_right_eq_some, Option.some.injEq] at hread
    obtain ⟨hm, rfl⟩ := hread
    simp only [index?, Option.ite_none_right_eq_some, Bool.and_eq_true, decide_eq_true_eq,
      Option.some.injEq] at hindex
    obtain ⟨⟨hd, hb⟩, rfl⟩ := hindex
    have hinner := Text.eq_of_cutLast?_eq_some hlast
    refine ⟨_, after, ⟨hm, hb, digits, hd, rfl, rfl⟩, ?_, ?_⟩
    · rw [Text.after?_eq_some_iff.mp hrest, Text.eq_of_cut?_eq_some hcut, hinner]
      simp only [written, List.append_assoc, List.cons_append, List.nil_append]
    · simp only [hinner, written, List.length_append, List.length_cons, List.length_nil]
      omega
  · rintro ⟨piece, rest, ⟨hm, hb, digits, hd, hv, rfl⟩, rfl, rfl⟩
    have hread := recognise_written hm hd rest
    rwa [hv, if_pos hb] at hread

private theorem fits_recognise : Segment.Fits recognise := by
  intro text placeholder length h
  obtain ⟨piece, rest, _, rfl, rfl⟩ := recognise_eq_some_iff.mp h
  simp only [List.length_append, Nat.le_add_right]

/-- A placeholder read at the start of a text is read there whatever follows the text. -/
theorem recognise_append_of_eq_some {text : Text} {placeholder : Placeholder} {length : Nat}
    (h : recognise text = some (placeholder, length)) (rest : Text) :
    recognise (text ++ rest) = some (placeholder, length) := by
  obtain ⟨piece, after, hs, rfl, rfl⟩ := recognise_eq_some_iff.mp h
  exact recognise_eq_some_iff.mpr ⟨piece, after ++ rest, hs, by rw [List.append_assoc], rfl⟩

/-- Nothing but an opening angle bracket starts a placeholder. -/
theorem recognise_eq_none_of_ne {c : Char} {rest : Text} (h : c ≠ '<') :
    recognise (c :: rest) = none := by
  cases hr : recognise (c :: rest) with
  | none => rfl
  | some pair =>
    obtain ⟨piece, after, hs, he, _⟩ := recognise_eq_some_iff.mp hr
    obtain ⟨inner, rfl, _⟩ := hs.edges
    exact absurd (List.cons.inj he).1 h

/-- A place between two texts at which no placeholder can be cut in two: what follows starts with an
opening bracket or brace, or what stands before ends with a closing one. -/
def Sealed (left right : Text) : Prop :=
  (∀ c ∈ right.head?, c = '<' ∨ c = '{') ∨ (∀ c ∈ left.getLast?, c = '>' ∨ c = '}')

/-- A place inside a spelled placeholder is not sealed. -/
theorem Spells.not_sealed {placeholder : Placeholder} {left right : Text}
    (h : Spells placeholder (left ++ right)) (hleft : left ≠ []) (hright : right ≠ []) :
    ¬ Sealed left right := by
  obtain ⟨inner, he, hinner⟩ := h.edges
  obtain ⟨a, front, rfl⟩ := List.exists_cons_of_ne_nil hleft
  obtain ⟨d, back, rfl⟩ := List.exists_cons_of_ne_nil hright
  obtain rfl : a = '<' := (List.cons.inj he).1
  have hbody : front ++ d :: back = inner ++ ['>'] := (List.cons.inj he).2
  rintro (hhead | hlast)
  · -- the character after the place is no opening bracket, since only the first one is
    have hd := hhead d rfl
    have hmem : d ∈ inner ++ ['>'] := hbody ▸ List.mem_append_right _ List.mem_cons_self
    rcases List.mem_append.mp hmem with hmem | hmem
    · have hedge := hinner d hmem
      rcases hd with rfl | rfl <;> exact absurd hedge (by decide)
    · rw [List.mem_singleton.mp hmem] at hd
      exact absurd hd (by decide)
  · -- the character before the place is no closing bracket, since only the last one is
    rcases List.eq_nil_or_concat' front with rfl | ⟨init, last, rfl⟩
    · exact absurd (hlast '<' rfl) (by decide)
    · have hinit : init ++ [last] <+: inner := by
        have hfront : init ++ [last] <+: inner ++ ['>'] := ⟨d :: back, hbody⟩
        refine List.prefix_of_prefix_length_le hfront (List.prefix_append _ _) ?_
        have hlength := congrArg List.length hbody
        simp only [List.length_append, List.length_cons, List.length_nil] at hlength ⊢
        omega
      have hl : last = '>' ∨ last = '}' := hlast last (by
        rw [List.getLast?_cons, List.getLast?_append]
        rfl)
      have hedge := hinner last (hinit.subset (List.mem_append_right _ List.mem_cons_self))
      rcases hl with rfl | rfl <;> exact absurd hedge (by decide)

/-- A spelled placeholder that starts before a sealed place ends before it. -/
theorem Spells.isPrefix_of_sealed {placeholder : Placeholder} {piece left right : Text}
    (hs : Spells placeholder piece) (hseal : Sealed left right) (hleft : left ≠ [])
    (hp : piece <+: left ++ right) : piece <+: left := by
  obtain ⟨rest, hrest⟩ := hp
  rcases List.append_eq_append_iff.mp hrest with ⟨tail, rfl, _⟩ | ⟨tail, rfl, rfl⟩
  · exact List.prefix_append _ _
  · by_cases htail : tail = []
    · subst htail
      exact ⟨[], by simp only [List.append_nil]⟩
    · refine absurd ?_ (hs.not_sealed hleft htail)
      refine hseal.imp (fun hhead c hc => hhead c ?_) id
      rw [List.head?_append, Option.mem_def.mp hc, Option.some_or, Option.mem_def]

/-- Placeholders are read independently on the two sides of a sealed place. -/
private theorem separates_of_sealed {left right : Text} (h : Sealed left right) :
    Segment.Separates recognise left right := by
  intro c rest hsuffix
  have hseal : Sealed (c :: rest) right := by
    refine h.imp id fun hlast d hd => hlast d ?_
    obtain ⟨front, rfl⟩ := hsuffix
    simpa [List.getLast?_append] using hd
  cases hr : recognise (c :: rest) with
  | some pair => exact recognise_append_of_eq_some hr right
  | none =>
    cases hl : recognise (c :: rest ++ right) with
    | none => rfl
    | some pair =>
      obtain ⟨piece, after, hs, he, hn⟩ := recognise_eq_some_iff.mp hl
      obtain ⟨tail, ht⟩ := hs.isPrefix_of_sealed hseal (List.cons_ne_nil _ _) ⟨after, he.symm⟩
      have hread := recognise_eq_some_iff.mpr ⟨piece, tail, hs, ht.symm, hn⟩
      exact absurd (hr.symm.trans hread) (by simp)

/-- The segments of a text cut at a sealed place. -/
theorem segments_append_of_sealed {left right : Text} (h : Sealed left right) :
    Segment.segments recognise (left ++ right) =
      Segment.segments recognise left ++ Segment.segments recognise right :=
  Segment.segments_append fits_recognise (separates_of_sealed h)

/-- The digits of an index are digits. -/
theorem isDigits_toDigits (index : Nat) : Text.isDigits (Nat.toDigits 10 index) = true :=
  isDigits_iff.mpr ⟨Nat.toDigits_ne_nil,
    fun _ => Nat.isDigit_of_mem_toDigits (by decide) (by decide)⟩

/-- The digits of an index stand for the index. -/
theorem digitsValue_toDigits (index : Nat) : Text.digitsValue (Nat.toDigits 10 index) = index :=
  Nat.ofDigitChars_ten_toDigits

/-- A rendered placeholder with an index in range is a spelling of the placeholder. -/
theorem spells_render {placeholder : Placeholder} (hm : isMarker placeholder.marker = true)
    (hb : placeholder.index < indexBound) : Spells placeholder placeholder.render :=
  ⟨hm, hb, _, isDigits_toDigits placeholder.index, digitsValue_toDigits placeholder.index, rfl⟩

/-- A rendered placeholder is read as itself when its index is in range, and not at all
otherwise. -/
theorem recognise_render {placeholder : Placeholder} (hm : isMarker placeholder.marker = true)
    (rest : Text) :
    recognise (placeholder.render ++ rest) =
      if placeholder.index < indexBound then some (placeholder, placeholder.render.length)
      else none := by
  have hread := recognise_written hm (isDigits_toDigits placeholder.index) rest
  rwa [digitsValue_toDigits] at hread

/-- A rendered placeholder is a comment with no edge character inside. -/
theorem render_edges {placeholder : Placeholder} (hm : isMarker placeholder.marker = true) :
    ∃ inner, placeholder.render = '<' :: '!' :: (inner ++ ['>']) ∧ ∀ c ∈ inner, isEdge c = false :=
  written_edges hm (isDigits_toDigits placeholder.index)

/-- The place before a rendered placeholder is sealed. -/
theorem sealed_render_append (left : Text) (placeholder : Placeholder) (rest : Text) :
    Sealed left (placeholder.render ++ rest) :=
  Or.inl fun _ hc => Or.inl (Option.some.inj hc).symm

/-- The place after a rendered placeholder is sealed. -/
theorem sealed_append_render (front : Text) (placeholder : Placeholder) (right : Text) :
    Sealed (front ++ placeholder.render) right := by
  refine Or.inr fun c hc => Or.inl ?_
  rw [render, ← List.append_assoc, List.getLast?_append] at hc
  exact (Option.some.inj hc).symm

/-- A rendered placeholder with an index in range is one segment. -/
theorem segments_render {placeholder : Placeholder} (hm : isMarker placeholder.marker = true)
    (hb : placeholder.index < indexBound) :
    Segment.segments recognise placeholder.render = [.item placeholder.render placeholder] := by
  obtain ⟨inner, he, _⟩ := render_edges hm
  have hread := recognise_render hm []
  rw [List.append_nil, if_pos hb, he] at hread
  rw [he]
  exact Segment.segments_whole hread

end ComponentFile.Placeholder

namespace ComponentFile

/-- The marker of every directive can stand in a placeholder. -/
theorem DirectiveKind.isMarker_marker (kind : DirectiveKind) :
    Placeholder.isMarker kind.marker = true := by
  cases kind <;> rfl

theorem Directive.isMarker_placeholder (directive : Directive) :
    Placeholder.isMarker directive.placeholder.marker = true :=
  directive.kind.isMarker_marker

end ComponentFile
