import ComponentFile.Proofs.Block.Assembly
import ComponentFile.Proofs.Block.Elements
import ComponentFile.Validation.Rules

/-!
# Where content lies

The content of a block lies behind the opening tag, with white space between them at most. The rules
look this place up again: it is taken to be where the content first occurs in the span of its block,
tags included. A content can stand there twice. Then it overlaps the opening tag, and goes on as a
repetition of the tag and the white space.
-/

namespace ComponentFile

/-! ## Text that overlaps itself -/

namespace Text

/-- A text that is repeated behind an overlap has no characters but those of the overlap. -/
theorem eq_nil_of_isPrefix_append {c : Char} {text overlap : Text} (hc : c ∈ text)
    (hnot : c ∉ overlap) (h : text <+: overlap ++ text) : overlap = [] := by
  obtain ⟨front, back, rfl, hfront⟩ := List.eq_append_cons_of_mem hc
  by_contra hne
  have hlength : (front ++ [c]).length ≤ (overlap ++ front).length := by
    have hpos := List.length_pos_iff.mpr hne
    simp only [List.length_append, List.length_singleton]
    omega
  -- the first place of the character would lie in the overlap or before the first place
  have hfirst : front ++ [c] <+: overlap ++ (front ++ c :: back) := by
    refine List.IsPrefix.trans ?_ h
    rw [List.append_cons front c back]
    exact List.prefix_append _ _
  have hupto : overlap ++ front <+: overlap ++ (front ++ c :: back) := by
    rw [← List.append_assoc]
    exact List.prefix_append _ _
  have hmem := (List.prefix_of_prefix_length_le hfirst hupto hlength).subset
    (List.mem_append_right front (List.mem_singleton_self c))
  exact (List.mem_append.mp hmem).elim hnot hfront

/-- In a text that is repeated behind `m :: tail` and a gap, every word that starts with `m` agrees
with `m :: tail` as far as both go. -/
theorem comparable_of_isPrefix_append {m : Char} {tail gap text word : Text} (hm : m ∉ tail ++ gap)
    (h : text <+: m :: (tail ++ gap) ++ text) (hword : m :: word <:+: text) :
    m :: word <+: m :: tail ∨ m :: tail <+: m :: word := by
  obtain ⟨front, back, htext⟩ := hword
  induction hlength : front.length using Nat.strongRecOn generalizing front back with
  | ind length ih =>
    subst hlength
    have hfront : front ++ m :: word <+: m :: (tail ++ gap) ++ text :=
      (htext ▸ List.prefix_append _ back).trans h
    by_cases hle : (m :: (tail ++ gap)).length ≤ front.length
    · -- the word also stands one repetition earlier
      obtain ⟨more, rfl⟩ :=
        List.prefix_of_prefix_length_le (List.prefix_append _ text)
          ((List.prefix_append _ _).trans hfront) hle
      rw [List.append_assoc, List.prefix_append_right_inj] at hfront
      obtain ⟨rest, hrest⟩ := hfront
      refine ih more.length ?_ more rest hrest rfl
      rw [List.length_append, List.length_cons]
      omega
    · cases front with
      | nil =>
        have hopening : m :: tail <+: m :: (tail ++ gap) ++ text :=
          List.cons_prefix_cons.mpr
            ⟨rfl, (List.prefix_append tail gap).trans (List.prefix_append _ text)⟩
        exact List.prefix_or_prefix_of_prefix hfront hopening
      | cons c front =>
        -- the character would stand once more in the text before the repetition
        have hlead : c :: front ++ [m] <+: m :: (tail ++ gap) := by
          refine List.prefix_of_prefix_length_le (List.IsPrefix.trans ?_ hfront)
            (List.prefix_append _ _) ?_
          · rw [List.append_cons (c :: front) m word]
            exact List.prefix_append _ _
          · rw [List.length_append, List.length_singleton]
            omega
        have hinner := (List.cons_prefix_cons.mp hlead).2
        exact absurd (hinner.subset (List.mem_append_right front (List.mem_singleton_self m))) hm

end Text

namespace Validation

open Extraction Segment Text

/-! ## Where content was taken from -/

/-- What reading drops between the opening tag of an element and its content: in a template all
blanks, in client code and styling one line feed, if it stands there. A backend is no element. -/
def Dropped (kind : BlockKind) (gap rest : Text) : Prop :=
  match kind with
  | .backend => False
  | .template => gap.isBlankText = true ∧ ∀ c ∈ rest.head?, isBlank c = false
  | .uiLogic | .style => gap = ['\n'] ∨ gap = [] ∧ rest.head? ≠ some '\n'

/-- The block lies in the file with its content behind the opening tag and the gap. -/
structure Laid (source : Text) (kind : BlockKind) (block : Block) (before gap back after : Text) :
    Prop where
  source_eq : source = before ++ (kind.opening ++ gap ++ block.content ++ back) ++ after
  start_eq : block.start = before.byteSize
  stop_eq : block.stop = before.byteSize + (kind.opening ++ gap ++ block.content ++ back).byteSize
  dropped : Dropped kind gap (block.content ++ back)

/-- The content of the block was taken from the byte offset. -/
def TakenFrom (source : Text) (kind : BlockKind) (block : Block) (place : Nat) : Prop :=
  ∃ before gap back after, Laid source kind block before gap back after ∧
    place = block.start + kind.opening.byteSize + gap.byteSize

/-- A closing tag behind the rest changes nothing about what is dropped before it. -/
theorem Dropped.append {kind : BlockKind} {gap rest : Text} (h : Dropped kind gap rest) :
    Dropped kind gap (rest ++ kind.closing) := by
  cases rest with
  | cons c rest => exact h
  | nil =>
    cases kind with
    | backend => exact h
    | template => exact ⟨h.1, fun c hc => Option.some.inj hc ▸ rfl⟩
    | uiLogic | style => exact h.imp_right fun hnone => ⟨hnone.1, by decide⟩

/-- An element with tags around an inner text is laid out by what is dropped from the inner text. -/
theorem laid_of_cuts {kind : BlockKind} {source before inner after gap trail : Text} {block : Block}
    (hsource : source = before ++ kind.opening ++ (inner ++ kind.closing ++ after))
    (hstart : block.start = before.byteSize)
    (hstop : block.stop = before.byteSize + kind.opening.byteSize + inner.byteSize +
      kind.closing.byteSize)
    (hinner : inner = gap ++ (block.content ++ trail))
    (hgap : Dropped kind gap (block.content ++ trail)) :
    Laid source kind block before gap (trail ++ kind.closing) after := by
  refine ⟨?_, hstart, ?_, ?_⟩
  · rw [hsource, hinner]
    simp only [List.append_assoc]
  · rw [hstop, hinner]
    simp only [byteSize_append]
    omega
  · rw [← List.append_assoc]
    exact hgap.append

/-- Reading a script drops one line feed at its front, or nothing. -/
private theorem exists_lineFeed (inner : Text) :
    ∃ gap, inner = gap ++ dropLineFeed inner ∧ Dropped .uiLogic gap (dropLineFeed inner) := by
  by_cases hfeed : inner.head? = some '\n'
  · obtain ⟨rest, rfl⟩ := List.head?_eq_some_iff.mp hfeed
    exact ⟨['\n'], rfl, .inl rfl⟩
  · have hkept := dropLineFeed_of_head?_ne hfeed
    exact ⟨[], hkept.symm, .inr ⟨rfl, by rwa [hkept]⟩⟩

/-- A script is laid out by the cuts that find it. -/
theorem exists_laid_uiLogic {source : Text} {block : Block}
    (h : (Extraction.of source).uiLogic = some block) :
    ∃ before gap back after, Laid source .uiLogic block before gap back after := by
  cases hfound : elements scriptName source with
  | nil =>
    rw [Extraction.of, hfound] at h
    cases h
  | cons first others =>
    rw [Extraction.of, hfound] at h
    obtain rfl := Option.some.inj h
    obtain ⟨before, rest, inner, after, hopening, hclosing, hstart, hstop, hcontent⟩ :=
      exists_cuts_of_elementsFrom hfound
    rw [Nat.zero_add] at hstart
    rw [hstart] at hstop
    obtain ⟨gap, hinner, hgap⟩ := exists_lineFeed inner
    obtain ⟨trail, htrail⟩ := trimEnd_isPrefix (dropLineFeed inner)
    rw [← hcontent] at htrail
    rw [← htrail] at hinner hgap
    refine ⟨before, gap, trail ++ closingTag scriptName, after,
      laid_of_cuts ?_ hstart hstop hinner hgap⟩
    rw [eq_of_cut?_eq_some hopening, eq_of_cut?_eq_some hclosing]
    rfl

/-- A template is laid out by the cuts that find it. -/
theorem exists_laid_template {source : Text} {block : Block}
    (h : (Extraction.of source).template = some block) :
    ∃ before gap back after, Laid source .template block before gap back after := by
  have hfound : templateBlock? source = some block := h
  obtain ⟨⟨before, rest⟩, hopening, hfound⟩ := Option.bind_eq_some_iff.mp hfound
  obtain ⟨⟨inner, after⟩, hclosing, hfound⟩ := Option.bind_eq_some_iff.mp hfound
  obtain rfl := Option.some.inj hfound
  obtain ⟨trail, htrail⟩ := trimEnd_isPrefix inner.trimStart
  have hinner : inner = inner.takeWhile isBlank ++ (inner.trim ++ trail) := by
    rw [trim, htrail]
    exact List.takeWhile_append_dropWhile.symm
  have hgap : Dropped .template (inner.takeWhile isBlank) (inner.trim ++ trail) := by
    refine ⟨List.all_eq_true.mpr fun c hc => List.mem_takeWhile_imp hc, ?_⟩
    rw [trim, htrail]
    exact isBlank_head_trimStart inner
  refine ⟨before, inner.takeWhile isBlank, trail ++ closingTag templateName, after,
    laid_of_cuts ?_ rfl rfl hinner hgap⟩
  rw [eq_of_cut?_eq_some hopening, eq_of_cutLast?_eq_some hclosing]
  rfl

/-! ## Where content is looked up -/

namespace Laid

variable {source : Text} {kind : BlockKind} {block : Block} {before gap back after : Text}
  (h : Laid source kind block before gap back after)

include h

/-- Content stands at the start of its block if it is repeated behind the opening tag and the
gap. -/
theorem standsAt_start_iff :
    StandsAt block.content source block.start ↔
      block.content <+: kind.opening ++ gap ++ block.content := by
  have hspan : kind.opening ++ gap ++ block.content <+: kind.opening ++ gap ++ block.content ++
      back ++ after := by
    rw [List.append_assoc _ back]
    exact List.prefix_append _ _
  rw [h.source_eq, h.start_eq, List.append_assoc, standsAt_append_iff (Nat.le_refl _)]
  constructor
  · rintro ⟨front, rest, hrest, hsize⟩
    have hlength := length_le_byteSize front
    obtain rfl : front = [] := List.eq_nil_of_length_eq_zero (by omega)
    have hprefix : block.content <+: kind.opening ++ gap ++ block.content ++ back ++ after := by
      rw [hrest]
      exact List.prefix_append _ _
    exact List.prefix_of_prefix_length_le hprefix hspan (List.suffix_append _ _).length_le
  · intro hprefix
    obtain ⟨rest, hrest⟩ := hprefix.trans hspan
    exact ⟨[], rest, hrest.symm, rfl⟩

/-- The content is looked up where it was taken from or at an earlier place, from where it overlaps
itself. -/
theorem exists_contentOffset :
    ∃ front overlap, kind.opening ++ gap = front ++ overlap ∧
      contentOffset source block = block.start + front.byteSize ∧
      block.content <+: overlap ++ block.content ∧
      (block.content <+: kind.opening ++ gap ++ block.content → front = []) := by
  have hslice : slice? block.start block.stop source =
      some (kind.opening ++ gap ++ block.content ++ back) :=
    slice?_eq_some_iff.mpr ⟨before, after, h.source_eq, h.start_eq, h.stop_eq⟩
  cases hcut : cut? block.content (kind.opening ++ gap ++ block.content ++ back) with
  | none =>
    have hinfix : block.content <:+: kind.opening ++ gap ++ block.content ++ back :=
      List.infix_append (kind.opening ++ gap) block.content back
    exact absurd hinfix (cut?_eq_none_iff.mp hcut)
  | some cut =>
    obtain ⟨front, rest⟩ := cut
    obtain ⟨overlap, hoverlap⟩ := isPrefix_of_cut?_eq_some hcut rfl
    have hoffset : contentOffset source block = block.start + front.byteSize := by
      rw [contentOffset, hslice, Option.bind_eq_bind, Option.bind_some, hcut]
    refine ⟨front, overlap, hoverlap.symm, hoffset, ?_, fun hprefix => ?_⟩
    · have htext := eq_of_cut?_eq_some hcut
      rw [← hoverlap, List.append_assoc front, List.append_assoc front, List.append_assoc front,
        List.append_cancel_left_eq] at htext
      refine List.prefix_of_prefix_length_le ?_
        (List.prefix_append (overlap ++ block.content) back) ?_
      · rw [htext]
        exact List.prefix_append _ _
      · rw [List.length_append]
        omega
    · obtain ⟨rest, hrest⟩ := hprefix.trans (List.prefix_append _ back)
      exact List.prefix_nil.mp (isPrefix_of_cut?_eq_some hcut hrest.symm)

/-- Content that stands at the start of its block is looked up there. -/
theorem contentOffset_of_standsAt (hstands : StandsAt block.content source block.start) :
    contentOffset source block = block.start := by
  obtain ⟨front, overlap, -, hoffset, -, hfront⟩ := h.exists_contentOffset
  obtain rfl := hfront (h.standsAt_start_iff.mp hstands)
  rw [hoffset, byteSize_nil, Nat.add_zero]

/-- Other content is looked up in its place if it has a character that the opening tag and the gap
have at their front at most. -/
theorem contentOffset_of_not_standsAt {c : Char} (hc : c ∈ block.content)
    (hnot : c ∉ (kind.opening ++ gap).tail) (hstands : ¬StandsAt block.content source block.start) :
    contentOffset source block = block.start + kind.opening.byteSize + gap.byteSize := by
  obtain ⟨front, overlap, hopening, hoffset, hoverlap, -⟩ := h.exists_contentOffset
  rw [h.standsAt_start_iff, hopening] at hstands
  rw [hopening] at hnot
  cases front with
  | nil => exact absurd hoverlap hstands
  | cons d front =>
    obtain rfl : overlap = [] :=
      eq_nil_of_isPrefix_append hc (fun hm => hnot (List.mem_append_right front hm)) hoverlap
    rw [List.append_nil] at hopening
    rw [hoffset, ← hopening, byteSize_append, Nat.add_assoc]

/-- What stands in the content stands in the file, as far behind the place of the content. -/
theorem standsAt_content {front mark rest : Text}
    (hcontent : block.content = front ++ mark ++ rest) :
    StandsAt mark source (block.start + kind.opening.byteSize + gap.byteSize + front.byteSize) := by
  refine standsAt_iff.mpr ⟨before ++ kind.opening ++ gap ++ front, rest ++ back ++ after, ?_, ?_⟩
  · rw [h.source_eq, hcontent]
    simp only [List.append_assoc]
  · simp only [h.start_eq, byteSize_append]

end Laid

end Validation

end ComponentFile
