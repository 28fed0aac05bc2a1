import ComponentFile.Block.Extraction
import ComponentFile.Proofs.Text.Lines
import ComponentFile.Proofs.Text.Trimming
import Mathlib.Data.List.Nodup

/-!
# Assembled files

A file can be written by giving each block its delimiters on lines of their own. When no content
holds a delimiter, the blocks of such a file are found again, each with its exact span, whatever
their order: a tag lies within a line, so the locator of one kind passes over the blocks of the
other kinds line by line.
-/

namespace ComponentFile

/-- The line that opens a block. -/
def BlockKind.opening : BlockKind → Text
  | .backend => ['-', '-', '-']
  | .uiLogic => Extraction.openingTag Extraction.scriptName
  | .template => Extraction.openingTag Extraction.templateName
  | .style => Extraction.openingTag Extraction.styleName

/-- The line that closes a block. -/
def BlockKind.closing : BlockKind → Text
  | .backend => ['-', '-', '-']
  | .uiLogic => Extraction.closingTag Extraction.scriptName
  | .template => Extraction.closingTag Extraction.templateName
  | .style => Extraction.closingTag Extraction.styleName

/-- A block to be written to a file. -/
structure WrittenBlock where
  /-- The kind of the block. -/
  kind : BlockKind
  /-- The text between the delimiters. -/
  content : Text
  deriving DecidableEq, Repr

namespace WrittenBlock

/-- The written block: the content between its delimiters, on lines of their own. -/
def text (written : WrittenBlock) : Text :=
  written.kind.opening ++ '\n' :: (written.content ++ '\n' :: written.kind.closing)

/-- The blocks written one after the other, each followed by a line feed. -/
def assemble (blocks : List WrittenBlock) : Text :=
  blocks.flatMap fun written => written.text ++ ['\n']

/-- The content holds no tag of a block and no fence line, and a backend does not end in a carriage
return, which would count as part of the line end before the closing fence. -/
structure Clean (written : WrittenBlock) : Prop where
  /-- No opening tag stands in the content. -/
  no_opening : ∀ kind ≠ BlockKind.backend, ¬kind.opening <:+: written.content
  /-- No closing tag stands in the content. -/
  no_closing : ∀ kind ≠ BlockKind.backend, ¬kind.closing <:+: written.content
  /-- No line of the content is a fence. -/
  no_fence : ∀ line ∈ Text.pieces ['\n'] written.content, Extraction.isFence line = false
  /-- A backend does not end in a carriage return. -/
  no_return : written.kind = .backend → written.content.getLast? ≠ some '\r'

/-- The content as it is found again: a backend's stays, code and styling lose the blanks at their
end, and markup those at both ends. -/
def found (written : WrittenBlock) : Text :=
  match written.kind with
  | .backend => written.content
  | .template => written.content.trim
  | .uiLogic | .style => written.content.trimEnd

/-- The block as it is found again when it is written at a byte offset. -/
def block (written : WrittenBlock) (start : Nat) : Block where
  content := written.found
  start
  stop := start + written.text.byteSize
  occurrences := 1

/-! ## Where tags stand -/

/-- Delimiters are lines. -/
theorem not_mem_opening (kind : BlockKind) : '\n' ∉ kind.opening := by cases kind <;> decide

/-- Delimiters are lines. -/
theorem not_mem_closing (kind : BlockKind) : '\n' ∉ kind.closing := by cases kind <;> decide

/-- Delimiters are not empty. -/
theorem opening_ne_nil (kind : BlockKind) : kind.opening ≠ [] := by cases kind <;> decide

/-- Delimiters are not empty. -/
theorem closing_ne_nil (kind : BlockKind) : kind.closing ≠ [] := by cases kind <;> decide

/-- A mark within a line occurs in a written block in its content or in a delimiter. -/
theorem isInfix_text_iff {mark : Text} (hmark : '\n' ∉ mark) (written : WrittenBlock) :
    mark <:+: written.text ↔
      mark <:+: written.kind.opening ∨ mark <:+: written.content ∨
        mark <:+: written.kind.closing := by
  rw [text, Text.isInfix_append_cons_iff hmark, Text.isInfix_append_cons_iff hmark]

/-- An opening tag stands in the blocks of its kind only. -/
theorem Clean.not_opening {written : WrittenBlock} (h : written.Clean) {kind : BlockKind}
    (hkind : kind ≠ .backend) (hother : written.kind ≠ kind) : ¬kind.opening <:+: written.text := by
  rw [isInfix_text_iff (not_mem_opening kind), not_or, not_or]
  have hdelimiters : ¬kind.opening <:+: written.kind.opening ∧
      ¬kind.opening <:+: written.kind.closing := by
    cases kind <;> cases hd : written.kind <;>
      first | exact absurd hd hother | exact absurd rfl hkind | decide
  exact ⟨hdelimiters.1, h.no_opening kind hkind, hdelimiters.2⟩

/-- A closing tag stands in the blocks of its kind only. -/
theorem Clean.not_closing {written : WrittenBlock} (h : written.Clean) {kind : BlockKind}
    (hkind : kind ≠ .backend) (hother : written.kind ≠ kind) : ¬kind.closing <:+: written.text := by
  rw [isInfix_text_iff (not_mem_closing kind), not_or, not_or]
  have hdelimiters : ¬kind.closing <:+: written.kind.opening ∧
      ¬kind.closing <:+: written.kind.closing := by
    cases kind <;> cases hd : written.kind <;>
      first | exact absurd hd hother | exact absurd rfl hkind | decide
  exact ⟨hdelimiters.1, h.no_closing kind hkind, hdelimiters.2⟩

/-- Writing blocks one after the other. -/
theorem assemble_append (before after : List WrittenBlock) :
    assemble (before ++ after) = assemble before ++ assemble after := List.flatMap_append

/-- The first block is written first. -/
theorem assemble_cons (written : WrittenBlock) (blocks : List WrittenBlock) :
    assemble (written :: blocks) = written.text ++ '\n' :: assemble blocks := by
  rw [assemble, List.flatMap_cons, List.append_assoc]
  rfl

/-- Every written block ends its line. -/
theorem endsLine_assemble (blocks : List WrittenBlock) : Text.EndsLine (assemble blocks) := by
  intro c hc
  rcases List.eq_nil_or_concat blocks with rfl | ⟨front, last, rfl⟩
  · cases hc
  · have hnil : assemble [] = [] := rfl
    rw [List.concat_eq_append, assemble_append, assemble_cons, hnil, ← List.append_assoc,
      List.getLast?_concat] at hc
    exact (Option.mem_some.mp hc).symm

/-- A mark within a line that occurs in no block does not occur in the file. -/
theorem not_isInfix_assemble {mark : Text} (hmark : '\n' ∉ mark) (hne : mark ≠ [])
    {blocks : List WrittenBlock} (h : ∀ written ∈ blocks, ¬mark <:+: written.text) :
    ¬mark <:+: assemble blocks := by
  induction blocks with
  | nil => rwa [assemble, List.flatMap_nil, List.infix_nil]
  | cons written blocks ih =>
    rw [assemble_cons, Text.isInfix_append_cons_iff hmark, not_or]
    exact ⟨h written List.mem_cons_self,
      ih fun other hother => h other (List.mem_cons_of_mem _ hother)⟩

end WrittenBlock

namespace Extraction

open WrittenBlock

/-! ## Elements -/

section

variable {name text before rest inner after : Text}

/-- Without an opening tag there is no element. -/
theorem elementsFrom_of_not_opening (h : ¬openingTag name <:+: text) (offset : Nat) :
    elementsFrom name offset text = [] := by
  have hnone := Text.cut?_eq_none_iff.mpr h
  rw [elementsFrom]
  split
  · rfl
  · next hsome => rw [hnone] at hsome; cases hsome

/-- An element runs from the first opening tag to the next closing tag. -/
private theorem elementsFrom_of_cut
    (hopening : Text.cut? (openingTag name) text = some (before, rest))
    (hclosing : Text.cut? (closingTag name) rest = some (inner, after)) (offset : Nat) :
    elementsFrom name offset text =
      { content := (dropLineFeed inner).trimEnd, start := offset + before.byteSize
        stop := offset + before.byteSize + (openingTag name).byteSize + inner.byteSize +
          (closingTag name).byteSize } ::
        elementsFrom name (offset + before.byteSize + (openingTag name).byteSize + inner.byteSize +
          (closingTag name).byteSize) after := by
  rw [elementsFrom]
  split
  · next hnone => rw [hopening] at hnone; cases hnone
  · next b r hsome =>
    rw [hopening, Option.some.injEq, Prod.mk.injEq] at hsome
    obtain ⟨rfl, rfl⟩ := hsome
    split
    · next hnone => rw [hclosing] at hnone; cases hnone
    · next hsome =>
      rw [hclosing, Option.some.injEq, Prod.mk.injEq] at hsome
      obtain ⟨rfl, rfl⟩ := hsome
      rfl

end

/-- The blocks around a block: clean, and of other kinds. -/
structure Surrounds (kind : BlockKind) (blocks : List WrittenBlock) : Prop where
  clean : ∀ written ∈ blocks, written.Clean
  other : ∀ written ∈ blocks, written.kind ≠ kind

namespace Surrounds

variable {kind : BlockKind} {blocks : List WrittenBlock}

/-- The opening tag of a kind stands in no block of another kind. -/
theorem not_opening (h : Surrounds kind blocks) (hkind : kind ≠ .backend) :
    ¬kind.opening <:+: assemble blocks := by
  refine not_isInfix_assemble (not_mem_opening kind) (opening_ne_nil kind)
    fun written hwritten => ?_
  exact (h.clean written hwritten).not_opening hkind (h.other written hwritten)

/-- The closing tag of a kind stands in no block of another kind. -/
theorem not_closing (h : Surrounds kind blocks) (hkind : kind ≠ .backend) :
    ¬kind.closing <:+: assemble blocks := by
  refine not_isInfix_assemble (not_mem_closing kind) (closing_ne_nil kind)
    fun written hwritten => ?_
  exact (h.clean written hwritten).not_closing hkind (h.other written hwritten)

end Surrounds

section

variable {kind : BlockKind} {before after : List WrittenBlock} {written : WrittenBlock}

/-- The opening tag of a written block is the first of its kind in the file. -/
theorem cut?_opening_assemble (hbefore : Surrounds kind before) (hwritten : written.kind = kind)
    (hkind : kind ≠ .backend) (after : List WrittenBlock) :
    Text.cut? kind.opening (assemble (before ++ written :: after)) =
      some (assemble before,
        '\n' :: (written.content ++ '\n' :: kind.closing) ++ '\n' :: assemble after) := by
  rw [assemble_append, assemble_cons, WrittenBlock.text, hwritten, List.append_assoc,
    ← List.append_assoc]
  exact Text.cut?_of_endsLine _ (opening_ne_nil kind) (not_mem_opening kind)
    (endsLine_assemble before)
    (hbefore.not_opening hkind)

/-- The closing tag of a written block is the next one after its content. -/
private theorem cut?_closing_content (hclean : written.Clean) (hkind : kind ≠ .backend)
    (rest : Text) :
    Text.cut? kind.closing ('\n' :: (written.content ++ '\n' :: kind.closing) ++ rest) =
      some ('\n' :: written.content ++ ['\n'], rest) := by
  have hline := not_mem_closing kind
  have hfree : ¬kind.closing <:+: [] ++ '\n' :: (written.content ++ '\n' :: []) := by
    rw [Text.isInfix_append_cons_iff hline, Text.isInfix_append_cons_iff hline, List.infix_nil]
    simp only [closing_ne_nil kind, hclean.no_closing kind hkind, or_self, not_false_eq_true]
  have hends : Text.EndsLine ('\n' :: written.content ++ ['\n']) := by
    intro c hc
    rw [List.getLast?_concat] at hc
    exact (Option.mem_some.mp hc).symm
  have hcut := Text.cut?_of_endsLine rest (closing_ne_nil kind) hline hends hfree
  simpa only [List.cons_append, List.append_assoc, List.nil_append] using hcut

/-- A written element is found again, and nothing else with its name. -/
theorem elements_assemble {name : Text} (hopening : kind.opening = openingTag name)
    (hclosing : kind.closing = closingTag name) (hkind : kind ≠ .backend)
    (hbefore : Surrounds kind before) (hafter : Surrounds kind after) (hclean : written.Clean)
    (hwritten : written.kind = kind) :
    elements name (assemble (before ++ written :: after)) =
      [{ content := written.content.trimEnd, start := (assemble before).byteSize
         stop := (assemble before).byteSize + written.text.byteSize }] := by
  have hcut := cut?_opening_assemble hbefore hwritten hkind after
  have hinner := cut?_closing_content hclean hkind ('\n' :: assemble after)
  have hfree : ¬openingTag name <:+: '\n' :: assemble after := by
    rw [← hopening, ← List.nil_append ('\n' :: _),
      Text.isInfix_append_cons_iff (not_mem_opening kind), List.infix_nil, not_or]
    exact ⟨opening_ne_nil kind, hafter.not_opening hkind⟩
  rw [hopening] at hcut
  rw [hclosing] at hcut hinner
  rw [elements, elementsFrom_of_cut hcut hinner, elementsFrom_of_not_opening hfree]
  congr 2
  · exact Text.trimEnd_append_of_blank written.content (by decide)
  · exact Nat.zero_add _
  · have hsize : Text.byteSize ['\n'] = 1 := by decide
    rw [WrittenBlock.text, hwritten, hopening, hclosing]
    simp only [Text.byteSize_append, Text.byteSize_cons, Text.byteSize_nil] at hsize ⊢
    omega

/-- An element of a kind that is not written is not found. -/
theorem elements_of_surrounds {name : Text} (hopening : kind.opening = openingTag name)
    (hkind : kind ≠ .backend) {blocks : List WrittenBlock} (h : Surrounds kind blocks) :
    elements name (assemble blocks) = [] :=
  elementsFrom_of_not_opening (hopening ▸ h.not_opening hkind) 0

/-! ## Markup -/

/-- A tag that stands in no block of other kinds occurs in the file as often as in its own block. -/
private theorem occurrences_assemble {blocks : List WrittenBlock} (h : Surrounds kind blocks)
    (hkind : kind ≠ .backend) :
    Text.occurrences kind.opening (assemble blocks) = 0 :=
  Text.occurrences_eq_zero (h.not_opening hkind)

private theorem occurrences_opening_text (hclean : written.Clean)
    (hwritten : written.kind = .template) :
    Text.occurrences BlockKind.template.opening written.text = 1 := by
  have hline := not_mem_opening .template
  have hne := opening_ne_nil .template
  have hown : Text.occurrences BlockKind.template.opening BlockKind.template.opening = 1 := by
    decide
  have hclosing : Text.occurrences BlockKind.template.opening BlockKind.template.closing = 0 := by
    decide
  rw [WrittenBlock.text, hwritten, Text.occurrences_append_cons hline hne,
    Text.occurrences_append_cons hline hne,
    Text.occurrences_eq_zero (hclean.no_opening .template (by decide)), hown, hclosing]

private theorem templateBlock?_assemble (hbefore : Surrounds .template before)
    (hafter : Surrounds .template after) (hclean : written.Clean)
    (hwritten : written.kind = .template) :
    templateBlock? (assemble (before ++ written :: after)) =
      some (written.block (assemble before).byteSize) := by
  have hkind : BlockKind.template ≠ .backend := by decide
  have hline := not_mem_opening .template
  have hne := opening_ne_nil .template
  have hopening := cut?_opening_assemble hbefore hwritten hkind after
  have hclosing : Text.cutLast? BlockKind.template.closing
      ('\n' :: (written.content ++ '\n' :: BlockKind.template.closing) ++ '\n' :: assemble after) =
        some ('\n' :: written.content ++ ['\n'], '\n' :: assemble after) := by
    have hlast := Text.cutLast?_of_line ('\n' :: written.content ++ ['\n'])
      (closing_ne_nil .template)
      (not_mem_closing .template) (hafter.not_closing hkind)
    simpa only [List.cons_append, List.append_assoc, List.nil_append] using hlast
  have hcount :
      Text.occurrences BlockKind.template.opening (assemble (before ++ written :: after)) = 1 := by
    rw [assemble_append, assemble_cons]
    rcases (endsLine_assemble before).eq_nil_or with hnil | ⟨front, hfront⟩
    · rw [hnil, List.nil_append, Text.occurrences_append_cons hline hne,
        occurrences_opening_text hclean hwritten, occurrences_assemble hafter hkind]
    · have hzero := occurrences_assemble hbefore hkind
      rw [hfront, Text.occurrences_append_cons hline hne] at hzero
      rw [hfront, List.append_assoc, List.singleton_append, Text.occurrences_append_cons hline hne,
        Text.occurrences_append_cons hline hne, occurrences_opening_text hclean hwritten,
        occurrences_assemble hafter hkind]
      omega
  have hblank : Text.isBlankText ['\n'] = true := by decide
  have htrim : Text.trim ('\n' :: written.content ++ ['\n']) = written.content.trim :=
    Text.trim_pad hblank hblank written.content
  simp only [BlockKind.opening] at hopening hcount
  simp only [BlockKind.closing] at hopening hclosing
  simp only [templateBlock?, hopening, hclosing, hcount, htrim, Option.bind_eq_bind,
    Option.bind_some, pure, WrittenBlock.block, WrittenBlock.found, hwritten, WrittenBlock.text,
    BlockKind.opening, BlockKind.closing, Text.byteSize_append, Text.byteSize_cons,
    Text.byteSize_nil]
  congr 3
  omega

private theorem templateBlock?_of_surrounds {blocks : List WrittenBlock}
    (h : Surrounds .template blocks) :
    templateBlock? (assemble blocks) = none := by
  have hnone := Text.cut?_eq_none_iff.mpr (h.not_opening (by decide))
  simp only [BlockKind.opening] at hnone
  simp only [templateBlock?, hnone, Option.bind_eq_bind, Option.bind_none]

/-! ## Fences -/

/-- The bytes of lines that are each followed by a line feed. -/
def lineBytes (lines : List Text) : Nat := (lines.map fun line => line.byteSize + 1).sum

/-- Lines that are no fences are passed over between blocks. -/
theorem fencedFrom_none_append {lines : List Text} (h : ∀ line ∈ lines, isFence line = false)
    (offset : Nat) (rest : List Text) :
    fencedFrom offset none (lines ++ rest) = fencedFrom (offset + lineBytes lines) none rest := by
  induction lines generalizing offset with
  | nil => rfl
  | cons line lines ih =>
    have hline := h line List.mem_cons_self
    simp only [List.cons_append, fencedFrom, hline, Bool.false_eq_true, if_false]
    rw [ih fun other hother => h other (List.mem_cons_of_mem _ hother), lineBytes, lineBytes,
      List.map_cons, List.sum_cons, Nat.add_assoc offset, Nat.add_assoc offset]

/-- Lines that are no fences are gathered within a block. -/
theorem fencedFrom_some_append {lines : List Text} (h : ∀ line ∈ lines, isFence line = false)
    (offset start : Nat) (body rest : List Text) :
    fencedFrom offset (some (start, body)) (lines ++ rest) =
      fencedFrom (offset + lineBytes lines) (some (start, lines.reverse ++ body)) rest := by
  induction lines generalizing offset body with
  | nil => rfl
  | cons line lines ih =>
    have hline := h line List.mem_cons_self
    simp only [List.cons_append, fencedFrom, hline, Bool.false_and, Bool.false_eq_true, if_false]
    rw [ih fun other hother => h other (List.mem_cons_of_mem _ hother), lineBytes, lineBytes,
      List.map_cons, List.sum_cons, Nat.add_assoc offset, Nat.add_assoc offset, List.reverse_cons,
      List.append_assoc]
    rfl

/-- The lines of an assembled file: those of its blocks in order, and an empty last line. -/
theorem pieces_assemble (blocks : List WrittenBlock) (rest : Text) :
    Text.pieces ['\n'] (assemble blocks ++ rest) =
      (blocks.flatMap fun written => Text.pieces ['\n'] written.text) ++
        Text.pieces ['\n'] rest := by
  induction blocks with
  | nil => rfl
  | cons written blocks ih =>
    rw [assemble_cons, List.append_assoc, List.cons_append, Text.pieces_append_line, ih,
      List.flatMap_cons, List.append_assoc]

/-- The lines of a written block: its delimiters around the lines of its content. -/
theorem pieces_text (written : WrittenBlock) :
    Text.pieces ['\n'] written.text =
      written.kind.opening :: (Text.pieces ['\n'] written.content ++ [written.kind.closing]) := by
  have hopening : Text.pieces ['\n'] written.kind.opening = [written.kind.opening] := by
    cases written.kind <;> decide
  have hclosing : Text.pieces ['\n'] written.kind.closing = [written.kind.closing] := by
    cases written.kind <;> decide
  rw [WrittenBlock.text, Text.pieces_append_line, Text.pieces_append_line, hopening, hclosing]
  rfl

private theorem isFence_of_mem_pieces (hclean : written.Clean)
    (hwritten : written.kind ≠ .backend) :
    ∀ line ∈ Text.pieces ['\n'] written.text, isFence line = false := by
  intro line hline
  rw [pieces_text, List.mem_cons, List.mem_append, List.mem_singleton] at hline
  rcases hline with rfl | hline | rfl
  · cases hd : written.kind <;> first | exact absurd hd hwritten | decide
  · exact hclean.no_fence line hline
  · cases hd : written.kind <;> first | exact absurd hd hwritten | decide

/-- No line of blocks of other kinds is a fence. -/
theorem Surrounds.isFence_of_mem {blocks : List WrittenBlock} (h : Surrounds .backend blocks) :
    ∀ line ∈ blocks.flatMap fun written => Text.pieces ['\n'] written.text,
      isFence line = false := by
  intro line hline
  obtain ⟨written, hwritten, hline⟩ := List.mem_flatMap.mp hline
  exact isFence_of_mem_pieces (h.clean written hwritten) (h.other written hwritten) line hline

/-- Every line of the blocks takes its bytes in the file and a line feed. -/
private theorem lineBytes_assemble (blocks : List WrittenBlock) :
    lineBytes (blocks.flatMap fun written => Text.pieces ['\n'] written.text) =
      (assemble blocks).byteSize := by
  have hpieces := pieces_assemble blocks []
  have hsum := Text.sum_pieces_line (assemble blocks ++ [])
  rw [hpieces, List.map_append, List.sum_append_nat, List.append_nil] at hsum
  have hlast : ((Text.pieces ['\n'] []).map fun line => line.byteSize + 1).sum = 1 := rfl
  rw [lineBytes]
  omega

/-- A written backend is found again, and no other fenced block. -/
private theorem fenced_assemble (hbefore : Surrounds .backend before)
    (hafter : Surrounds .backend after) (hclean : written.Clean)
    (hwritten : written.kind = .backend) :
    fenced (assemble (before ++ written :: after)) =
      [{ content := written.content, start := (assemble before).byteSize
         stop := (assemble before).byteSize + written.text.byteSize }] := by
  have hfence : isFence ['-', '-', '-'] = true := by decide
  have hreturn : dropReturn written.content = written.content := if_neg (hclean.no_return hwritten)
  have hne : (Text.pieces ['\n'] written.content).isEmpty = false := by
    rw [List.isEmpty_eq_false_iff]
    exact Text.piecesFrom_ne_nil ['\n'] 0 written.content
  have hjoin := Text.join_pieces (List.cons_ne_nil '\n' []) written.content
  have hsum := Text.sum_pieces_line written.content
  have hpieces := pieces_assemble (before ++ written :: after) []
  rw [List.append_nil, List.flatMap_append, List.flatMap_cons, pieces_text, hwritten] at hpieces
  simp only [BlockKind.opening, BlockKind.closing, List.append_assoc, List.cons_append] at hpieces
  rw [fenced, hpieces, fencedFrom_none_append hbefore.isFence_of_mem, lineBytes_assemble]
  simp only [fencedFrom, hfence, if_true]
  rw [fencedFrom_some_append hclean.no_fence, List.append_nil]
  simp only [List.nil_append, fencedFrom, hfence, List.isEmpty_reverse, hne, Bool.not_false,
    Bool.and_self, if_true, List.reverse_reverse, hjoin, hreturn]
  rw [fencedFrom_none_append hafter.isFence_of_mem]
  congr 2
  · exact Nat.zero_add _
  · rw [WrittenBlock.text, hwritten]
    simp only [lineBytes, hsum, BlockKind.opening, BlockKind.closing, Text.byteSize_append,
      Text.byteSize_cons, Text.byteSize_nil]
    have hsize : '\n'.utf8Size = 1 := by decide
    omega

private theorem fenced_of_surrounds {blocks : List WrittenBlock} (h : Surrounds .backend blocks) :
    fenced (assemble blocks) = [] := by
  have hpieces := pieces_assemble blocks []
  rw [List.append_nil] at hpieces
  rw [fenced, hpieces, fencedFrom_none_append h.isFence_of_mem]
  rfl

end

/-! ## All blocks -/

section

variable {blocks : List WrittenBlock} (hkinds : (blocks.map WrittenBlock.kind).Nodup)
  (hclean : ∀ written ∈ blocks, written.Clean)

include hclean

/-- A kind that is not written surrounds itself. -/
theorem surrounds_of_not_mem {kind : BlockKind} (h : kind ∉ blocks.map WrittenBlock.kind) :
    Surrounds kind blocks :=
  ⟨hclean, fun written hwritten he => h (List.mem_map.mpr ⟨written, hwritten, he⟩)⟩

/-- A kind that is not written is not found. -/
theorem get?_assemble_of_not_mem {kind : BlockKind} (h : kind ∉ blocks.map WrittenBlock.kind) :
    (of (assemble blocks)).get? kind = none := by
  have hsurrounds := surrounds_of_not_mem hclean h
  cases kind with
  | backend => simp only [get?, of, fenced_of_surrounds hsurrounds, Block.ofOccurrences?]
  | uiLogic =>
    simp only [get?, of, elements_of_surrounds rfl (by decide) hsurrounds, Block.ofOccurrences?]
  | template => simp only [get?, of, templateBlock?_of_surrounds hsurrounds]
  | style =>
    simp only [get?, of, elements_of_surrounds rfl (by decide) hsurrounds, Block.ofOccurrences?]

include hkinds

/-- Each written block surrounds the others. -/
theorem surrounds_of_eq_append {before after : List WrittenBlock} {written : WrittenBlock}
    (h : blocks = before ++ written :: after) :
    Surrounds written.kind before ∧ Surrounds written.kind after := by
  subst h
  rw [List.map_append, List.map_cons, List.nodup_middle, List.nodup_cons, List.mem_append,
    not_or] at hkinds
  refine ⟨surrounds_of_not_mem (fun other hother => hclean other ?_) hkinds.1.1,
    surrounds_of_not_mem (fun other hother => hclean other ?_) hkinds.1.2⟩
  · exact List.mem_append_left _ hother
  · exact List.mem_append_right _ (List.mem_cons_of_mem _ hother)

/-- Every written block is found where it was written. -/
theorem get?_assemble {before after : List WrittenBlock} {written : WrittenBlock}
    (h : blocks = before ++ written :: after) :
    (of (assemble blocks)).get? written.kind = some (written.block (assemble before).byteSize) := by
  obtain ⟨hbefore, hafter⟩ := surrounds_of_eq_append hkinds hclean h
  have hwritten : written.Clean := hclean written (h ▸ List.mem_append_right _ List.mem_cons_self)
  rw [h]
  cases hkind : written.kind with
  | backend =>
    rw [hkind] at hbefore hafter
    simp only [get?, of, fenced_assemble hbefore hafter hwritten hkind, Block.ofOccurrences?,
      WrittenBlock.block, WrittenBlock.found, hkind, List.length_nil, Nat.zero_add]
  | uiLogic =>
    rw [hkind] at hbefore hafter
    simp only [get?, of, elements_assemble rfl rfl (by decide) hbefore hafter hwritten hkind,
      Block.ofOccurrences?, WrittenBlock.block, WrittenBlock.found, hkind, List.length_nil,
      Nat.zero_add]
  | template =>
    rw [hkind] at hbefore hafter
    simp only [get?, of, templateBlock?_assemble hbefore hafter hwritten hkind]
  | style =>
    rw [hkind] at hbefore hafter
    simp only [get?, of, elements_assemble rfl rfl (by decide) hbefore hafter hwritten hkind,
      Block.ofOccurrences?, WrittenBlock.block, WrittenBlock.found, hkind, List.length_nil,
      Nat.zero_add]

/-- A kind is found exactly when it is written, and then once. -/
theorem get?_assemble_cases (kind : BlockKind) :
    (kind ∉ blocks.map WrittenBlock.kind ∧ (of (assemble blocks)).get? kind = none) ∨
      (kind ∈ blocks.map WrittenBlock.kind ∧ ∃ block,
          (of (assemble blocks)).get? kind = some block ∧
        block.occurrences = 1) := by
  by_cases h : kind ∈ blocks.map WrittenBlock.kind
  · obtain ⟨written, hwritten, rfl⟩ := List.mem_map.mp h
    obtain ⟨before, after, hsplit⟩ := List.append_of_mem hwritten
    exact .inr ⟨h, _, get?_assemble hkinds hclean hsplit, rfl⟩
  · exact .inl ⟨h, get?_assemble_of_not_mem hclean h⟩

/-- The blocks found have the kinds that are written, in the order of the kinds. -/
theorem present_assemble :
    (of (assemble blocks)).present.map Prod.fst =
      BlockKind.all.filter fun kind => kind ∈ blocks.map WrittenBlock.kind := by
  have hfilter : ∀ kinds : List BlockKind,
      (kinds.filterMap fun kind => ((of (assemble blocks)).get? kind).map (kind, ·)).map Prod.fst =
        kinds.filter fun kind => kind ∈ blocks.map WrittenBlock.kind := by
    intro kinds
    induction kinds with
    | nil => rfl
    | cons kind kinds ih =>
      rcases get?_assemble_cases hkinds hclean kind with ⟨hnot, hget⟩ | ⟨hmem, block, hget, -⟩
      · simp only [List.filterMap_cons, hget, Option.map_none, ih, List.filter_cons, hnot,
          decide_false, Bool.false_eq_true, if_false]
      · simp only [List.filterMap_cons, hget, Option.map_some, List.map_cons, ih, List.filter_cons,
          hmem, decide_true, if_true]
  exact hfilter BlockKind.all

/-- The elements with the name of the template are at most one. -/
theorem elements_template_assemble : (elements templateName (assemble blocks)).length ≤ 1 := by
  by_cases h : BlockKind.template ∈ blocks.map WrittenBlock.kind
  · obtain ⟨written, hwritten, hkind⟩ := List.mem_map.mp h
    obtain ⟨before, after, hsplit⟩ := List.append_of_mem hwritten
    obtain ⟨hbefore, hafter⟩ := surrounds_of_eq_append hkinds hclean hsplit
    rw [hkind] at hbefore hafter
    rw [hsplit,
      elements_assemble rfl rfl (by decide) hbefore hafter (hclean written hwritten) hkind]
    exact Nat.le_refl 1
  · rw [elements_of_surrounds rfl (by decide) (surrounds_of_not_mem hclean h)]
    exact Nat.zero_le 1

end

end Extraction

end ComponentFile
