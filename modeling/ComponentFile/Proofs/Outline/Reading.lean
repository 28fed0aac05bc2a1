import ComponentFile.Proofs.Template.Expansion
import ComponentFile.Proofs.Outline.Basic

/-!
# The outline that a processed template shows

A placeholder shows the node of its directive, whose bodies are the outlines that the processed
bodies show in turn; all other characters show themselves. The outlines of bodies are thus found by
following placeholders, and end where following ends.
-/

namespace ComponentFile

open Template

/-- The characters of a text as leaves in front of an outline. -/
def Template.Outline.markup (text : Text) (next : Outline Insert) : Outline Insert :=
  text.foldr (fun c next => .leaf (.char c) next) next

/-- The further arms that branches show, given what their processed bodies show. The leading arm is
none of them. -/
def Template.armsOf (inner : Text → Outline Insert) : List Branch → Arms Insert
  | [] => .nil
  | branch :: rest =>
    match branch.kind with
    | .elseIf condition => .cons (some condition) (inner branch.processedBody) (armsOf inner rest)
    | .otherwise => .cons none (inner branch.processedBody) (armsOf inner rest)
    | .primary => armsOf inner rest

/-- Puts the node of a directive in front of an outline. A conditional without a leading arm and a
component show nothing. -/
def DirectiveKind.place (inner : Text → Outline Insert) :
    DirectiveKind → Outline Insert → Outline Insert
  | .interpolation expression, next => .leaf (.interpolation expression) next
  | .rawMarkup content, next => .leaf (.rawMarkup content) next
  | .loop iterable item indexName _ processedBody, next =>
    .loop { iterable, item, indexName } (inner processedBody) next
  | .conditional condition (⟨.primary, _, processedBody⟩ :: arms), next =>
    .conditional condition (inner processedBody) (armsOf inner arms) next
  | .conditional _ _, next => next
  | .component _ _ _ _, next => next

namespace ProcessedTemplate

/-- Puts what a segment of a processed text shows in front of an outline. -/
def placeSegment (template : ProcessedTemplate) (inner : Text → Outline Insert) :
    Segment Placeholder → Outline Insert → Outline Insert
  | .char c, next => .leaf (.char c) next
  | .item source placeholder, next =>
    match template.resolve? placeholder with
    | some directive => directive.kind.place inner next
    | none => .markup source next

/-- The outline that a text shows, given what the texts of directives show. -/
def readWith (template : ProcessedTemplate) (inner : Text → Outline Insert) (text : Text) :
    Outline Insert :=
  (Segment.segments Placeholder.recognise text).foldr (template.placeSegment inner) .nil

/-- The outline that a text shows when all placeholders are followed. -/
def read (template : ProcessedTemplate) : Text → Outline Insert :=
  template.follow template.readWith fun text => .markup text .nil

/-- The outline that the processed template shows. -/
def outline (template : ProcessedTemplate) : Outline Insert := template.read template.content

end ProcessedTemplate

/-- The arms depend only on what the hosts of the branches show. -/
theorem Template.armsOf_congr {inner other : Text → Outline Insert} {branches : List Branch}
    (h : ∀ host ∈ branches.map Branch.processedBody, inner host = other host) :
    armsOf inner branches = armsOf other branches := by
  induction branches with
  | nil => rfl
  | cons branch rest ih =>
    have hfirst := h branch.processedBody List.mem_cons_self
    have hrest := ih fun host hm => h host (List.mem_cons_of_mem _ hm)
    simp only [armsOf, hfirst, hrest]

/-- A node depends only on what the hosts of its directive show. -/
theorem DirectiveKind.place_congr {inner other : Text → Outline Insert} {kind : DirectiveKind}
    (h : ∀ host ∈ kind.hosts, inner host = other host) (next : Outline Insert) :
    kind.place inner next = kind.place other next := by
  unfold place
  split
  · rfl
  · rfl
  · rw [h _ List.mem_cons_self]
  · rw [h _ List.mem_cons_self, armsOf_congr fun host hm => h host (List.mem_cons_of_mem _ hm)]
  · rfl
  · rfl

/-- The leaves of a text followed by those of another. -/
theorem Template.Outline.markup_append (left right : Text) (next : Outline Insert) :
    Outline.markup (left ++ right) next = Outline.markup left (Outline.markup right next) := by
  simp only [Outline.markup, List.foldr_append]

namespace ProcessedTemplate

/-- Segments that refer to nothing show their sources. -/
theorem foldr_placeSegment_eq_markup {template : ProcessedTemplate} (inner : Text → Outline Insert)
    {segments : List (Segment Placeholder)}
    (h : ∀ placeholder ∈ Segment.values segments, template.resolve? placeholder = none)
    (next : Outline Insert) :
    segments.foldr (template.placeSegment inner) next =
      .markup (Segment.sources segments) next := by
  induction segments with
  | nil => rfl
  | cons segment rest ih =>
    cases segment with
    | char c =>
      rw [List.foldr_cons, ih h, Segment.sources_cons]
      rfl
    | item source placeholder =>
      have hnone := h placeholder List.mem_cons_self
      have hrest := ih fun other hm => h other (List.mem_cons_of_mem _ hm)
      rw [List.foldr_cons, hrest, Segment.sources_cons, Outline.markup_append]
      simp only [placeSegment, hnone, Segment.source]

private theorem isLocal_readWith (template : ProcessedTemplate) :
    template.IsLocal template.readWith fun text => .markup text .nil where
  congr := by
    intro inner other text hsame
    refine List.foldr_ext _ _ _ fun segment hm next => ?_
    cases segment with
    | char c => rfl
    | item source placeholder =>
      have hp : placeholder ∈ Placeholder.references text := by
        rw [Placeholder.references_eq_values]
        exact Segment.mem_values_of_mem hm
      cases hr : template.resolve? placeholder with
      | none => simp only [placeSegment, hr]
      | some directive =>
        have hhosts := fun host hm =>
          hsame placeholder hp directive hr host (List.mem_cons_of_mem _ hm)
        simp only [placeSegment, hr, DirectiveKind.place_congr hhosts]
  base := by
    intro inner text hnone
    rw [Placeholder.references_eq_values] at hnone
    rw [readWith, foldr_placeSegment_eq_markup inner hnone, Segment.sources_segments]

/-- A text shows what its segments show one after another. -/
theorem read_eq {template : ProcessedTemplate} (h : Ordered template.directives) (text : Text) :
    template.read text = template.readWith template.read text :=
  follow_eq template.isLocal_readWith h text

end ProcessedTemplate

end ComponentFile
