import ComponentFile.Proofs.Outline.Fitting

/-!
# Taking nodes out of an outline

A pass takes some nodes of an outline out and leaves marks. Which nodes these are, and how they are
read, is a `Picking`; the segments of the text follow from it. Replacing the segments then gives the
text of an outline in which the picked nodes are marks (`Masked`), and everything that processing
relies on carries over to that outline.
-/

namespace ComponentFile

namespace Registry

variable {β : Type} {build : β → Registry → DirectiveKind × Registry}

/-- Segments in a row are replaced one after another. -/
theorem replaceFrom_append (offset : Nat) (left right : List (Segment β)) (registry : Registry) :
    replaceFrom build offset (left ++ right) registry =
      let front := replaceFrom build offset left registry
      let back := replaceFrom build (offset + (Segment.sources left).byteSize) right front.2
      (front.1 ++ back.1, back.2) := by
  induction left generalizing offset registry with
  | nil => rfl
  | cons segment left ih =>
    cases segment with
    | char c =>
      simp only [List.cons_append, replaceFrom, ih, Segment.sources_cons, Segment.source,
        Text.byteSize_append, Text.byteSize_cons, Text.byteSize_nil, Nat.zero_add, Nat.add_assoc]
    | item source value =>
      simp only [List.cons_append, replaceFrom, ih, Segment.sources_cons, Segment.source,
        Text.byteSize_append, Nat.add_assoc, List.append_assoc]

/-- Plain characters stay. -/
theorem replaceFrom_plain (offset : Nat) (text : Text) (registry : Registry) :
    replaceFrom build offset (Segment.plain text) registry = (text, registry) := by
  induction text generalizing offset with
  | nil => rfl
  | cons c text ih =>
    rw [Segment.plain] at ih
    rw [Segment.plain, List.map_cons, replaceFrom, ih]

/-- A directive is added at the end. -/
theorem toList_register (registry : Registry) (kind : DirectiveKind) (start : Nat) (source : Text) :
    ∃ directive : Directive, directive.kind = kind ∧
      (registry.register kind start source).1 = directive.placeholder.render ∧
      (registry.register kind start source).2.toList = registry.toList ++ [directive] :=
  ⟨_, rfl, rfl, Array.toList_push⟩

/-- Replacing only adds directives. -/
theorem isPrefix_replaceFrom
    (hbuild : ∀ value registry, registry.toList <+: (build value registry).2.toList) (offset : Nat)
    (segments : List (Segment β)) (registry : Registry) :
    registry.toList <+: (replaceFrom build offset segments registry).2.toList := by
  induction segments generalizing offset registry with
  | nil => exact List.prefix_refl _
  | cons segment rest ih =>
    cases segment with
    | char c => exact ih _ registry
    | item source value =>
      obtain ⟨directive, _, _, hlist⟩ :=
        toList_register (build value registry).2 (build value registry).1 offset source
      have hgrown : (build value registry).2.toList <+:
          ((build value registry).2.register (build value registry).1 offset source).2.toList := by
        rw [hlist]
        exact List.prefix_append _ _
      exact (hbuild value registry).trans (hgrown.trans (ih _ _))

/-- Replacing an item adds its directive. -/
theorem length_lt_replaceFrom
    (hbuild : ∀ value registry, registry.toList <+: (build value registry).2.toList) (offset : Nat)
    {segments : List (Segment β)} {source : Text} {value : β} (hm : .item source value ∈ segments)
    (registry : Registry) :
    registry.toList.length < (replaceFrom build offset segments registry).2.toList.length := by
  induction segments generalizing offset registry with
  | nil => cases hm
  | cons segment rest ih =>
    cases segment with
    | char c =>
      rcases List.mem_cons.mp hm with he | hm
      · cases he
      · exact ih _ hm registry
    | item other found =>
      obtain ⟨directive, _, _, hlist⟩ :=
        toList_register (build found registry).2 (build found registry).1 offset other
      have hfirst := (hbuild found registry).length_le
      have hrest := (isPrefix_replaceFrom hbuild (offset + other.byteSize) rest
        ((build found registry).2.register (build found registry).1 offset other).2).length_le
      rw [hlist, List.length_append, List.length_singleton] at hrest
      exact Nat.lt_of_lt_of_le (by omega) hrest

end Registry

namespace Template

variable {β : Type}

/-- What a pass reads the first node of an outline as, if it takes that node out. -/
abbrev Picking (β : Type) := Outline Piece → Option β

namespace Outline

/-- The segments of the text of an outline, with the picked nodes as items. -/
def segments (pick : Picking β) : Outline Piece → List (Segment β)
  | .nil => []
  | .leaf piece next =>
    (match pick (.leaf piece next) with
      | some found => [.item piece.text found]
      | none => Segment.plain piece.text) ++ next.segments pick
  | .loop header body next =>
    (match pick (.loop header body next) with
      | some found => [.item (header.token ++ body.text Piece.text ++ eachClosing) found]
      | none => Segment.plain header.token ++ body.segments pick ++ Segment.plain eachClosing) ++
      next.segments pick
  | .conditional condition body arms next =>
    let source := ifToken condition ++ body.text Piece.text ++ arms.text Piece.text ++ ifClosing
    (match pick (.conditional condition body arms next) with
      | some found => [.item source found]
      | none => Segment.plain source) ++ next.segments pick

/-- The first node is neither a character nor a mark. -/
def IsNode : Outline Piece → Prop
  | .nil | .leaf (.written (.char _)) _ | .leaf (.mark _) _ => False
  | .leaf (.written (.interpolation _)) _ | .leaf (.written (.rawMarkup _)) _ => True
  | .loop _ _ _ | .conditional _ _ _ _ => True

/-- A picked node is one item. -/
theorem segments_of_picked {pick : Picking β} {outline : Outline Piece} {found : β}
    (hnode : outline.IsNode) (h : pick outline = some found) :
    outline.segments pick = .item (outline.headText Piece.text) found ::
      outline.next.segments pick := by
  cases outline with
  | nil => exact hnode.elim
  | leaf piece next =>
    simp only [segments, h]
    rfl
  | loop header body next =>
    simp only [segments, h]
    rfl
  | conditional condition body arms next =>
    simp only [segments, h]
    rfl

/-- A node is shown as a block. -/
theorem IsNode.isBlock_headPlace {outline : Outline Piece} (h : outline.IsNode)
    (template : ProcessedTemplate) : IsBlock (outline.headPlace (Piece.place template)) := by
  cases outline with
  | nil => exact h.elim
  | leaf piece next =>
    match piece, h with
    | .written (.interpolation _), _ => exact IsBlock.leaf rfl
    | .written (.rawMarkup _), _ => exact IsBlock.leaf rfl
  | loop header body next => exact .loop _ _
  | conditional condition body arms next => exact .conditional _ _ _

/-- A node ends the run of markup before it. -/
theorem IsNode.clear {outline : Outline Piece} (h : outline.IsNode) {run : Text}
    (hclear : outline.Clear run) : IsMarkup run ∧ outline.next.Clear [] := by
  refine ⟨?_, hclear.next⟩
  cases outline with
  | nil => exact h.elim
  | leaf piece next =>
    match piece, h with
    | .written (.interpolation _), _ => exact hclear.1
    | .written (.rawMarkup _), _ => exact hclear.1
  | loop header body next => exact hclear.1
  | conditional condition body arms next => exact hclear.1

end Outline

/-- The second outline is the first one with the picked nodes turned into marks of directives that
stand for them. -/
inductive Masked (template : ProcessedTemplate) (pick : Picking β) :
    Outline Piece → Outline Piece → Prop
  | nil : Masked template pick .nil .nil
  | leaf (piece : Piece) {next rest : Outline Piece} (hpick : pick (.leaf piece next) = none)
    (hnext : Masked template pick next rest) :
    Masked template pick (.leaf piece next) (.leaf piece rest)
  | loop (header : LoopHeader) {body inside next rest : Outline Piece}
    (hpick : pick (.loop header body next) = none) (hbody : Masked template pick body inside)
    (hnext : Masked template pick next rest) :
    Masked template pick (.loop header body next) (.loop header inside rest)
  | conditional (condition : Text) (body : Outline Piece) (arms : Arms Piece)
    {next rest : Outline Piece}
    (hpick : pick (.conditional condition body arms next) = none)
    (hnext : Masked template pick next rest) :
    Masked template pick (.conditional condition body arms next)
      (.conditional condition body arms rest)
  | take {outline rest : Outline Piece} {found : β} (directive : Directive)
    (hpick : pick outline = some found) (hnode : outline.IsNode)
    (hmem : directive ∈ template.directives.toList)
    (hplace : directive.kind.place template.read = outline.headPlace (Piece.place template))
    (hnext : Masked template pick outline.next rest) :
    Masked template pick outline (.leaf (.mark directive) rest)

section

variable {template : ProcessedTemplate} {pick : Picking β} {outline other : Outline Piece}

/-- The two outlines have the same normal form. -/
theorem Masked.normal_eq (h : Masked template pick outline other) :
    other.normal (Piece.place template) = outline.normal (Piece.place template) := by
  induction h with
  | nil => rfl
  | leaf piece _ _ ihnext => rw [Outline.normal, Outline.normal, ihnext]
  | loop header _ _ _ ihbody ihnext => rw [Outline.normal, Outline.normal, ihbody, ihnext]
  | conditional condition body arms _ _ ihnext => rw [Outline.normal, Outline.normal, ihnext]
  | @take outline rest found directive _ _ _ hplace _ ihnext =>
    rw [Outline.normal, ihnext, Piece.place, hplace, Outline.headPlace_next]

/-- Marks are well-formed. -/
theorem Masked.wellFormed (h : Masked template pick outline other)
    (hwell : outline.WellFormed (Piece.WellFormed template)) :
    other.WellFormed (Piece.WellFormed template) := by
  induction h with
  | nil => trivial
  | leaf piece _ _ ihnext => exact ⟨hwell.1, ihnext hwell.2⟩
  | loop header _ _ _ ihbody ihnext => exact ⟨hwell.1, ihbody hwell.2.1, ihnext hwell.2.2⟩
  | conditional condition body arms _ _ ihnext =>
    exact ⟨hwell.1, hwell.2.1, hwell.2.2.1, ihnext hwell.2.2.2⟩
  | @take outline rest found directive _ hnode hmem hplace _ ihnext =>
    refine ⟨⟨hmem, ?_⟩, ihnext ?_⟩
    · rw [hplace]
      exact hnode.isBlock_headPlace template
    · exact hwell.next

/-- Marks end runs of markup as the nodes did. -/
theorem Masked.clear (h : Masked template pick outline other) {run : Text}
    (hclear : outline.Clear run) : other.Clear run := by
  induction h generalizing run with
  | nil => exact hclear
  | leaf piece _ _ ihnext =>
    match piece with
    | .written (.char c) => exact ihnext hclear
    | .written (.interpolation _) => exact ⟨hclear.1, ihnext hclear.2⟩
    | .written (.rawMarkup _) => exact ⟨hclear.1, ihnext hclear.2⟩
    | .mark _ => exact ⟨hclear.1, ihnext hclear.2⟩
  | loop header _ _ _ ihbody ihnext => exact ⟨hclear.1, ihbody hclear.2.1, ihnext hclear.2.2⟩
  | conditional condition body arms _ _ ihnext =>
    exact ⟨hclear.1, hclear.2.1, hclear.2.2.1, ihnext hclear.2.2.2⟩
  | take directive _ hnode _ _ _ ihnext =>
    obtain ⟨hrun, hrest⟩ := hnode.clear hclear
    exact ⟨hrun, ihnext hrest⟩

/-- Marks have no braces. -/
theorem Masked.braces_le (h : Masked template pick outline other) :
    braces (other.text Piece.text) ≤ braces (outline.text Piece.text) := by
  induction h with
  | nil => exact Nat.le_refl _
  | leaf piece _ _ ihnext =>
    rw [Outline.text, Outline.text, braces_append, braces_append]
    omega
  | loop header _ _ _ ihbody ihnext =>
    simp only [Outline.text, braces_append]
    omega
  | conditional condition body arms _ _ ihnext =>
    simp only [Outline.text, braces_append]
    omega
  | @take outline rest found directive _ _ _ _ _ ihnext =>
    have hmark : braces (Piece.mark directive).text = 0 :=
      List.count_eq_zero.mpr (not_mem_render directive)
    rw [← Outline.headText_append_next Piece.text outline, Outline.text, braces_append,
      braces_append]
    omega

/-- Marks are no loops. -/
theorem Masked.loopChain_le (h : Masked template pick outline other) (enclosing : Nat) :
    other.loopChain enclosing ≤ outline.loopChain enclosing := by
  induction h generalizing enclosing with
  | nil => exact Nat.le_refl _
  | leaf piece _ _ ihnext => exact ihnext enclosing
  | loop header _ _ _ ihbody ihnext =>
    have hbody := ihbody (enclosing + 1)
    have hnext := ihnext enclosing
    rw [Outline.loopChain, Outline.loopChain]
    omega
  | conditional condition body arms _ _ ihnext =>
    have hnext := ihnext enclosing
    rw [Outline.loopChain, Outline.loopChain]
    omega
  | @take outline rest found directive _ _ _ _ _ ihnext =>
    exact (ihnext enclosing).trans (Outline.loopChain_next_le enclosing outline)

/-- What fits still fits with marks. -/
theorem Masked.fits (h : Masked template pick outline other) {limit depth : Nat}
    (hfits : outline.Fits template limit depth) : other.Fits template limit depth where
  wellFormed := h.wellFormed hfits.wellFormed
  clear := h.clear hfits.clear
  braces_le := h.braces_le.trans hfits.braces_le
  loopChain_le := (h.loopChain_le 0).trans hfits.loopChain_le

end

/-! ## Outlines with fewer kinds of nodes -/

namespace Outline

/-- There are no conditionals, and the leaves are as `keep` says. -/
inductive Bare (keep : Piece → Prop) : Outline Piece → Prop
  | nil : Bare keep .nil
  | leaf {piece : Piece} {next : Outline Piece} (hpiece : keep piece) (hnext : Bare keep next) :
    Bare keep (.leaf piece next)
  | loop {header : LoopHeader} {body next : Outline Piece} (hbody : Bare keep body)
    (hnext : Bare keep next) : Bare keep (.loop header body next)

/-- There are neither conditionals nor loops, and the leaves are as `keep` says. -/
inductive Flat (keep : Piece → Prop) : Outline Piece → Prop
  | nil : Flat keep .nil
  | leaf {piece : Piece} {next : Outline Piece} (hpiece : keep piece) (hnext : Flat keep next) :
    Flat keep (.leaf piece next)

/-- Whether there is a loop outside conditionals. -/
def hasLoop : Outline Piece → Bool
  | .nil => false
  | .leaf _ next | .conditional _ _ _ next => next.hasLoop
  | .loop _ _ _ => true

/-- What follows the first node has no conditionals. -/
theorem Bare.next {keep : Piece → Prop} {outline : Outline Piece} (h : outline.Bare keep) :
    outline.next.Bare keep := by
  cases h with
  | nil => exact .nil
  | leaf _ hnext => exact hnext
  | loop _ hnext => exact hnext

/-- What follows the first node is leaves. -/
theorem Flat.next {keep : Piece → Prop} {outline : Outline Piece} (h : outline.Flat keep) :
    outline.next.Flat keep := by
  cases h with
  | nil => exact .nil
  | leaf _ hnext => exact hnext

/-- Without loops and conditionals there are only leaves. -/
theorem Bare.flat {keep : Piece → Prop} {outline : Outline Piece} (h : outline.Bare keep)
    (hloop : outline.hasLoop = false) : outline.Flat keep := by
  induction h with
  | nil => exact .nil
  | leaf hpiece _ ihnext => exact .leaf hpiece (ihnext hloop)
  | loop _ _ _ _ => cases hloop

/-- Leaves are no loops. -/
theorem Flat.hasLoop_eq_false {keep : Piece → Prop} {outline : Outline Piece}
    (h : outline.Flat keep) :
    outline.hasLoop = false := by
  induction h with
  | nil => rfl
  | leaf _ _ ihnext => exact ihnext

/-- A loop makes the chain longer than what stands around the outline. -/
theorem lt_loopChain_of_hasLoop (enclosing : Nat) :
    ∀ outline : Outline Piece, outline.hasLoop = true → enclosing < outline.loopChain enclosing
  | .leaf _ next, h => lt_loopChain_of_hasLoop enclosing next h
  | .loop _ body _, _ =>
    Nat.lt_of_lt_of_le (Nat.lt_succ_self _)
      ((le_loopChain (enclosing + 1) body).trans (Nat.le_max_left _ _))
  | .conditional _ _ _ next, h =>
    Nat.lt_of_lt_of_le (lt_loopChain_of_hasLoop enclosing next h) (Nat.le_max_right _ _)

end Outline

/-- Marking adds no kind of node but marks. -/
theorem Masked.bare {template : ProcessedTemplate} {pick : Picking β}
    {outline other : Outline Piece} (h : Masked template pick outline other) {keep : Piece → Prop}
    (hmark : ∀ directive, keep (.mark directive)) (hbare : outline.Bare keep) :
    other.Bare keep := by
  induction h with
  | nil => exact .nil
  | leaf piece _ _ ihnext =>
    cases hbare with
    | leaf hpiece hnext => exact .leaf hpiece (ihnext hnext)
  | loop header _ _ _ ihbody ihnext =>
    cases hbare with
    | loop hbody hnext => exact .loop (ihbody hbody) (ihnext hnext)
  | conditional condition body arms _ _ _ => cases hbare
  | take directive _ _ _ _ _ ihnext => exact .leaf (hmark directive) (ihnext hbare.next)

/-- Marking adds no kind of node but marks. -/
theorem Masked.flat {template : ProcessedTemplate} {pick : Picking β}
    {outline other : Outline Piece} (h : Masked template pick outline other) {keep : Piece → Prop}
    (hmark : ∀ directive, keep (.mark directive)) (hflat : outline.Flat keep) :
    other.Flat keep := by
  induction h with
  | nil => exact .nil
  | leaf piece _ _ ihnext =>
    cases hflat with
    | leaf hpiece hnext => exact .leaf hpiece (ihnext hnext)
  | loop header _ _ _ _ _ => cases hflat
  | conditional condition body arms _ _ _ => cases hflat
  | take directive _ _ _ _ _ ihnext => exact .leaf (hmark directive) (ihnext hflat.next)

/-! ## Replacing the segments of an outline -/

/-- A pass takes out nodes only, and the directive it builds for a node of a fitting outline shows
the node. -/
structure Builds (template : ProcessedTemplate) (limit depth : Nat) (pick : Picking β)
    (build : β → Registry → DirectiveKind × Registry) : Prop where
  isNode : ∀ outline found, pick outline = some found → outline.IsNode
  grows : ∀ found registry, registry.toList <+: (build found registry).2.toList
  place_eq : ∀ outline found, outline.Fits template limit (depth + 1) → pick outline = some found →
    ∀ registry, (build found registry).2.toList <+: template.directives.toList →
      (build found registry).1.place template.read = outline.headPlace (Piece.place template)

/-- Replacing the segments of the outline turns the picked nodes into marks. -/
def Marks (template : ProcessedTemplate) (pick : Picking β)
    (build : β → Registry → DirectiveKind × Registry) (outline : Outline Piece) : Prop :=
  ∀ offset registry,
    (Registry.replaceFrom build offset (outline.segments pick) registry).2.toList <+:
      template.directives.toList →
    ∃ other, (Registry.replaceFrom build offset (outline.segments pick) registry).1 =
      other.text Piece.text ∧ Masked template pick outline other

section

variable {template : ProcessedTemplate} {limit depth : Nat} {pick : Picking β}
  {build : β → Registry → DirectiveKind × Registry}

/-- A picked node becomes a mark, whichever node it is. -/
theorem Builds.marks_of_picked (h : Builds template limit depth pick build)
    {outline : Outline Piece} (hfits : outline.Fits template limit (depth + 1)) {found : β}
    (hpick : pick outline = some found) (ih : Marks template pick build outline.next) :
    Marks template pick build outline := by
  intro offset registry hfinal
  have hnode := h.isNode _ _ hpick
  rw [Outline.segments_of_picked hnode hpick, Registry.replaceFrom] at hfinal ⊢
  obtain ⟨directive, hkind, hmark, hlist⟩ := Registry.toList_register (build found registry).2
    (build found registry).1 offset (outline.headText Piece.text)
  obtain ⟨rest, htext, hmasked⟩ := ih _ _ hfinal
  have hgrown := (Registry.isPrefix_replaceFrom h.grows _ _ _).trans hfinal
  rw [hlist] at hgrown
  refine ⟨.leaf (.mark directive) rest, ?_, .take directive hpick hnode ?_ ?_ hmasked⟩
  · simp only [htext, hmark, Outline.text, Piece.text]
  · exact hgrown.subset (List.mem_append_right _ List.mem_cons_self)
  · rw [hkind]
    exact h.place_eq _ _ hfits hpick registry ((List.prefix_append _ _).trans hgrown)

/-- All picked nodes of a fitting outline become marks. -/
theorem Builds.marks (h : Builds template limit depth pick build) :
    ∀ {outline : Outline Piece}, outline.Fits template limit (depth + 1) →
      Marks template pick build outline
  | .nil, _ => fun _ _ _ => ⟨.nil, rfl, .nil⟩
  | .leaf piece next, hfits => by
    have ih : Marks template pick build next := h.marks hfits.next
    cases hpick : pick (.leaf piece next) with
    | some found => exact h.marks_of_picked hfits hpick ih
    | none =>
      intro offset registry hfinal
      simp only [Outline.segments, hpick, Registry.replaceFrom_append, Registry.replaceFrom_plain]
        at hfinal ⊢
      obtain ⟨rest, htext, hmasked⟩ := ih _ _ hfinal
      exact ⟨.leaf piece rest, by rw [Outline.text, ← htext], .leaf piece hpick hmasked⟩
  | .loop header body next, hfits => by
    have ih : Marks template pick build next := h.marks hfits.next
    have ihbody := h.marks hfits.loopBody.mono
    cases hpick : pick (.loop header body next) with
    | some found => exact h.marks_of_picked hfits hpick ih
    | none =>
      intro offset registry hfinal
      simp only [Outline.segments, hpick, Registry.replaceFrom_append, Registry.replaceFrom_plain]
        at hfinal ⊢
      obtain ⟨rest, htext, hmasked⟩ := ih _ _ hfinal
      obtain ⟨inside, hinside, hbody⟩ :=
        ihbody _ _ ((Registry.isPrefix_replaceFrom h.grows _ _ _).trans hfinal)
      refine ⟨.loop header inside rest, ?_, .loop header hpick hbody hmasked⟩
      rw [Outline.text, ← htext, ← hinside]
  | .conditional condition body arms next, hfits => by
    have ih : Marks template pick build next := h.marks hfits.next
    cases hpick : pick (.conditional condition body arms next) with
    | some found => exact h.marks_of_picked hfits hpick ih
    | none =>
      intro offset registry hfinal
      simp only [Outline.segments, hpick, Registry.replaceFrom_append, Registry.replaceFrom_plain]
        at hfinal ⊢
      obtain ⟨rest, htext, hmasked⟩ := ih _ _ hfinal
      refine ⟨.conditional condition body arms rest, ?_,
        .conditional condition body arms hpick hmasked⟩
      rw [Outline.text, ← htext]

end

end Template

end ComponentFile
