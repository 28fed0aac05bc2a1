import ComponentFile.Proofs.Directive.References
import ComponentFile.Template.Registry

/-!
# What a pass over a template can do

Every pass replaces sources of directives by placeholders, one after another, and nothing else.
`Rewrites` says so once for all passes: it acts on a list of texts, and a single step first rewrites
the bodies of a directive and then puts the placeholder of the directive where its source stood.
What holds along every such run is derived from this relation alone.
-/

namespace ComponentFile

/-- The texts from which the hosts of a directive are made: bodies before they are processed. -/
def DirectiveKind.bodies : DirectiveKind → List Text
  | .interpolation _ | .rawMarkup _ => []
  | .conditional _ branches => branches.map Branch.body
  | .loop _ _ _ body _ => [body]
  | .component tag runtime attributes children =>
    (DirectiveKind.component tag runtime attributes children).hosts

namespace Template

/-- How the source of a directive starts, and what follows that start. -/
inductive SourceStart : Text → Text → Prop
  /-- A brace. -/
  | brace (rest : Text) : SourceStart ('{' :: rest) rest
  /-- The tag of a component. -/
  | tag (c : Char) (rest : Text) (h : c.isUpper = true) : SourceStart ('<' :: c :: rest) rest

/-- The text can be the source of a directive with these bodies. -/
structure IsSource (source : Text) (bodies : List Text) : Prop where
  /-- The bodies stand in the source after its start. -/
  start : ∃ rest, SourceStart source rest ∧ rest.Supplies bodies
  /-- The source ends with a bracket or a brace. -/
  stop : ∀ c ∈ source.getLast?, c = '>' ∨ c = '}'

/-- A run of replacements leads from texts and directives to texts and directives. -/
inductive Rewrites : List Text → Registry → List Text → Registry → Prop
  /-- Nothing is replaced. -/
  | refl (texts : List Text) (registry : Registry) : Rewrites texts registry texts registry
  /-- The bodies of a directive are rewritten, then its source is replaced, and the run goes on. -/
  | step {registry grown final : Registry} {texts : List Text} (left : List Text)
      (before after : Text) (right : List Text) (directive : Directive)
      (hindex : directive.index = grown.size)
      (hsource : IsSource directive.source directive.kind.bodies)
      (hbodies : Rewrites directive.kind.bodies registry directive.kind.hosts grown)
      (hnext : Rewrites (left ++ (before ++ directive.placeholder.render ++ after) :: right)
        (grown.push directive) texts final) :
      Rewrites (left ++ (before ++ directive.source ++ after) :: right) registry texts final

/-- The texts of all directives that can hold placeholders. -/
def hosted (registry : Registry) : List Text :=
  registry.toList.flatMap fun directive => directive.kind.hosts

@[simp] theorem hosted_push (registry : Registry) (directive : Directive) :
    hosted (registry.push directive) = hosted registry ++ directive.kind.hosts := by
  simp only [hosted, Array.toList_push, List.flatMap_append, List.flatMap_singleton]

/-- Every placeholder in the texts has an index below the bound. -/
def Bounded (bound : Nat) (texts : List Text) : Prop :=
  ∀ text ∈ texts, ∀ placeholder ∈ Placeholder.references text, placeholder.index < bound

theorem Bounded.mono {bound larger : Nat} {texts : List Text} (h : Bounded bound texts)
    (hle : bound ≤ larger) : Bounded larger texts :=
  fun text ht placeholder hp => (h text ht placeholder hp).trans_le hle

theorem bounded_append {bound : Nat} {texts others : List Text} :
    Bounded bound (texts ++ others) ↔ Bounded bound texts ∧ Bounded bound others := by
  simp only [Bounded, List.mem_append, or_imp, forall_and]

private theorem bounded_cons {bound : Nat} {text : Text} {texts : List Text} :
    Bounded bound (text :: texts) ↔ Bounded bound [text] ∧ Bounded bound texts := by
  rw [← bounded_append, List.singleton_append]

/-- Each directive stands at its index and mentions earlier ones only. -/
structure Ordered (registry : Registry) : Prop where
  /-- The indices count up from zero. -/
  indices : registry.toList.map Directive.index = List.range registry.size
  /-- Sources and hosts mention smaller indices. -/
  earlier : ∀ directive ∈ registry.toList,
    Bounded directive.index (directive.source :: directive.kind.hosts)

/-- The index of a directive is its place. -/
theorem Ordered.index_eq {registry : Registry} (h : Ordered registry) {k : Nat}
    {directive : Directive} (hk : registry[k]? = some directive) : directive.index = k := by
  have hlt : k < registry.size := by
    by_contra hge
    rw [Array.getElem?_eq_none (by omega)] at hk
    cases hk
  have hindices : (registry.toList.map Directive.index)[k]? = (List.range registry.size)[k]? := by
    rw [h.indices]
  rw [List.getElem?_map, Array.getElem?_toList, hk, List.getElem?_range hlt] at hindices
  exact Option.some.inj hindices

/-- A directive stands at its index. -/
theorem Ordered.getElem?_index {registry : Registry} (h : Ordered registry) {directive : Directive}
    (hm : directive ∈ registry.toList) : registry[directive.index]? = some directive := by
  obtain ⟨k, hk⟩ := List.mem_iff_getElem?.mp hm
  rw [Array.getElem?_toList] at hk
  rwa [h.index_eq hk]

/-- Adding a directive at the next index keeps the order. -/
theorem Ordered.push {registry : Registry} {directive : Directive} (h : Ordered registry)
    (hindex : directive.index = registry.size)
    (hearlier : Bounded registry.size (directive.source :: directive.kind.hosts)) :
    Ordered (registry.push directive) where
  indices := by
    rw [Array.toList_push, List.map_append, h.indices, Array.size_push, List.range_succ, ← hindex]
    rfl
  earlier := by
    intro other hmem
    rw [Array.toList_push, List.mem_append, List.mem_singleton] at hmem
    rcases hmem with hmem | rfl
    · exact h.earlier other hmem
    · rwa [hindex]

/-- The bodies stand in the source without overlapping. -/
theorem IsSource.supplies {source : Text} {bodies : List Text} (h : IsSource source bodies) :
    source.Supplies bodies := by
  obtain ⟨rest, hstart, ordered, hholds, hsub⟩ := h.start
  cases hstart with
  | brace => exact ⟨ordered, hholds.append_left ['{'], hsub⟩
  | tag c => exact ⟨ordered, hholds.append_left ['<', c], hsub⟩

/-- No placeholder is cut in two at the start of a source. -/
theorem IsSource.sealed_left {source : Text} {bodies : List Text} (h : IsSource source bodies)
    (before after : Text) : Placeholder.Sealed before (source ++ after) := by
  obtain ⟨rest, hstart, _⟩ := h.start
  refine Or.inl fun c hc => ?_
  cases hstart with
  | brace => exact Or.inr (Option.some.inj hc).symm
  | tag => exact Or.inl (Option.some.inj hc).symm

/-- No placeholder is cut in two at the end of a source. -/
theorem IsSource.sealed_right {source : Text} {bodies : List Text} (h : IsSource source bodies)
    (before after : Text) : Placeholder.Sealed (before ++ source) after := by
  obtain ⟨rest, hstart, _⟩ := h.start
  have hne : source ≠ [] := by cases hstart <;> exact List.cons_ne_nil _ _
  refine Or.inr fun c hc => h.stop c ?_
  rwa [List.getLast?_append, List.getLast?_eq_some_getLast hne, Option.some_or,
    ← List.getLast?_eq_some_getLast hne] at hc

/-- The bodies mention no other placeholders than the source. -/
theorem IsSource.bounded_bodies {source : Text} {bodies : List Text} (h : IsSource source bodies)
    {bound : Nat} (hb : Bounded bound [source]) : Bounded bound bodies := by
  intro body hbody placeholder hp
  apply hb source List.mem_cons_self
  have hpos := Placeholder.mentions_pos_of_mem hbody hp
  exact List.count_pos_iff.mp (hpos.trans_le (Placeholder.mentions_le_of_supplies h.supplies _))

/-- Whether a directive can start with these two characters. -/
def isStart (c : Char) (next : Option Char) : Bool :=
  c == '{' || (c == '<' && next.any Char.isUpper)

/-- The number of places at which a directive can start. -/
def starts : Text → Nat
  | [] => 0
  | c :: rest => (isStart c rest.head?).toNat + starts rest

/-- There are no more such places than characters. -/
theorem starts_le_length (text : Text) : starts text ≤ text.length := by
  induction text with
  | nil => exact le_rfl
  | cons c rest ih =>
    have hone := Bool.toNat_le (isStart c rest.head?)
    rw [starts, List.length_cons]
    omega

/-- Joining two texts keeps the places in both. -/
theorem starts_add_le (left right : Text) :
    starts left + starts right ≤ starts (left ++ right) := by
  induction left with
  | nil => simp only [starts, List.nil_append, Nat.zero_add, le_rfl]
  | cons c rest ih =>
    have hstart : (isStart c rest.head?).toNat ≤ (isStart c (rest ++ right).head?).toNat := by
      cases rest with
      | nil =>
        refine Bool.toNat_le_toNat fun h => ?_
        simp only [isStart, List.head?_nil, Option.any_none, Bool.and_false, Bool.or_false] at h
        simp only [isStart, h, Bool.true_or]
      | cons d rest => exact le_rfl
    rw [List.cons_append, starts, starts]
    omega

/-- A text that starts with no capital letter can be put after another one without a new place. -/
private theorem starts_append_of_head {left right : Text}
    (h : ∀ c ∈ right.head?, c.isUpper = false) :
    starts (left ++ right) = starts left + starts right := by
  induction left with
  | nil => simp only [starts, List.nil_append, Nat.zero_add]
  | cons c rest ih =>
    have hstart : isStart c (rest ++ right).head? = isStart c rest.head? := by
      cases rest with
      | nil =>
        cases right with
        | nil => rfl
        | cons d right =>
          have hd := h d rfl
          simp only [isStart, List.nil_append, List.head?_cons, List.head?_nil, Option.any_some,
            Option.any_none, hd]
      | cons d rest => rfl
    rw [List.cons_append, starts, starts, hstart, ih, Nat.add_assoc]

private theorem starts_append_of_not_mem {front : Text} (h : ∀ c ∈ front, c ≠ '<' ∧ c ≠ '{')
    (text : Text) :
    starts (front ++ text) = starts text := by
  induction front with
  | nil => rfl
  | cons c front ih =>
    obtain ⟨hangle, hbrace⟩ := h c List.mem_cons_self
    have hstart (next : Option Char) : isStart c next = false := by simp [isStart, hangle, hbrace]
    rw [List.cons_append, starts, hstart, ih fun d hd => h d (List.mem_cons_of_mem _ hd)]
    exact Nat.zero_add _

private theorem starts_insert (before : Text) {placeholder : Placeholder}
    (hm : Placeholder.isMarker placeholder.marker = true) (after : Text) :
    starts (before ++ placeholder.render ++ after) = starts before + starts after := by
  obtain ⟨inner, he, hinner⟩ := Placeholder.render_edges hm
  have hfront : ∀ c ∈ '!' :: (inner ++ ['>']), c ≠ '<' ∧ c ≠ '{' := by
    intro c hc
    simp only [List.mem_cons, List.mem_append, List.not_mem_nil, or_false] at hc
    rcases hc with rfl | hc | rfl
    · decide
    · have hedge := hinner c hc
      constructor <;> rintro rfl <;> exact absurd hedge (by decide)
    · decide
  have hrest := starts_append_of_not_mem hfront after
  rw [List.append_assoc, he, starts_append_of_head (by simp), List.cons_append, starts, hrest]
  simp [isStart]

/-- The start of a source is a place that does not belong to its bodies. -/
theorem IsSource.starts_bodies_lt {source : Text} {bodies : List Text}
    (h : IsSource source bodies) :
    (bodies.map starts).sum < starts source := by
  obtain ⟨rest, hstart, hsupplies⟩ := h.start
  have hle := hsupplies.sum_le starts starts_add_le
  cases hstart with
  | brace =>
    have hplace : starts ('{' :: rest) = 1 + starts rest := rfl
    omega
  | tag c rest hc =>
    have hplace : starts ('<' :: c :: rest) = 1 + starts (c :: rest) := by
      simp [starts, isStart, hc]
    have hmore := starts_add_le [c] rest
    rw [List.singleton_append] at hmore
    omega

namespace Rewrites

/-- Runs can be put one after the other. -/
theorem trans {texts middle others : List Text} {registry grown final : Registry}
    (h : Rewrites texts registry middle grown) (hnext : Rewrites middle grown others final) :
    Rewrites texts registry others final := by
  induction h with
  | refl => exact hnext
  | step left before after right directive hindex hsource hbodies _ _ ih =>
    exact .step left before after right directive hindex hsource hbodies (ih hnext)

/-- Other texts stay as they are during a run. -/
theorem frame {texts others : List Text} {registry final : Registry}
    (h : Rewrites texts registry others final) (front back : List Text) :
    Rewrites (front ++ texts ++ back) registry (front ++ others ++ back) final := by
  induction h with
  | refl => exact .refl _ _
  | step left before after right directive hindex hsource hbodies _ _ ih =>
    have hstep := Rewrites.step (front ++ left) before after (right ++ back) directive hindex
      hsource hbodies (by simpa only [List.append_assoc, List.cons_append] using ih)
    simpa only [List.append_assoc, List.cons_append] using hstep

/-- Rewriting a first text and then the others rewrites all of them. -/
theorem cons {text other : Text} {texts others : List Text} {registry grown final : Registry}
    (h : Rewrites [text] registry [other] grown) (hnext : Rewrites texts grown others final) :
    Rewrites (text :: texts) registry (other :: others) final := by
  have hfirst := h.frame [] texts
  have hrest := hnext.frame [other] []
  simp only [List.nil_append, List.append_nil, List.singleton_append] at hfirst hrest
  exact hfirst.trans hrest

/-- Directives are only ever added at the end. -/
theorem isPrefix {texts others : List Text} {registry final : Registry}
    (h : Rewrites texts registry others final) : registry.toList <+: final.toList := by
  induction h with
  | refl => exact List.prefix_rfl
  | step left before after right directive _ _ _ _ hbodies hnext =>
    rw [Array.toList_push] at hnext
    exact hbodies.trans ((List.prefix_append _ _).trans hnext)

theorem size_le {texts others : List Text} {registry final : Registry}
    (h : Rewrites texts registry others final) : registry.size ≤ final.size := by
  simpa only [Array.length_toList] using h.isPrefix.length_le

/-- Each new directive uses up a place at which a directive can start. -/
theorem size_add_starts_le {texts others : List Text} {registry final : Registry}
    (h : Rewrites texts registry others final) :
    final.size + (others.map starts).sum ≤ registry.size + (texts.map starts).sum := by
  induction h with
  | refl => exact le_rfl
  | step left before after right directive _ hsource _ _ hbodies hnext =>
    have hlt := hsource.starts_bodies_lt
    have hcut₁ := starts_add_le (before ++ directive.source) after
    have hcut₂ := starts_add_le before directive.source
    simp only [List.map_append, List.map_cons, List.sum_append, List.sum_cons, Array.size_push,
      starts_insert before directive.isMarker_placeholder after] at *
    omega

/-- No mention is made twice: a run adds one mention for each new directive at most, in the texts
and in the hosts of the new directives together. -/
theorem mentions_le {texts others : List Text} {registry final : Registry}
    (h : Rewrites texts registry others final) (placeholder : Placeholder) :
    Placeholder.mentions placeholder others + Placeholder.mentions placeholder (hosted final) +
        (registry.toList.map Directive.placeholder).count placeholder ≤
      Placeholder.mentions placeholder texts + Placeholder.mentions placeholder (hosted registry) +
        (final.toList.map Directive.placeholder).count placeholder := by
  induction h with
  | refl => exact le_rfl
  | step left before after right directive _ hsource _ _ hbodies hnext =>
    have hpieces := Placeholder.mentions_le_of_supplies hsource.supplies placeholder
    have hinsert := Placeholder.count_references_insert_le
      directive.isMarker_placeholder before after
      placeholder
    have hcut₁ :=
      (Placeholder.references_append_sublist (before ++ directive.source) after).count_le
      placeholder
    have hcut₂ :=
      (Placeholder.references_append_sublist before directive.source).count_le placeholder
    simp only [hosted_push, Array.toList_push, List.map_append, List.map_cons, List.map_nil,
      List.count_append, Placeholder.mentions_append, Placeholder.mentions_cons] at *
    omega

/-- A run keeps the order of directives, and its texts never mention a directive that is not
there. -/
theorem ordered {texts others : List Text} {registry final : Registry}
    (h : Rewrites texts registry others final) (hregistry : Ordered registry)
    (htexts : Bounded registry.size texts) : Ordered final ∧ Bounded final.size others := by
  induction h with
  | refl => exact ⟨hregistry, htexts⟩
  | @step registry grown final texts left before after right directive hindex hsource hrun _
      hbodies hnext =>
    rw [bounded_append, bounded_cons] at htexts
    obtain ⟨hleft, htext, hright⟩ := htexts
    have hpiece {piece : Text} (hp : piece <:+: before ++ directive.source ++ after) :
        Bounded registry.size [piece] := by
      intro other hother placeholder hm
      rw [List.mem_singleton.mp hother] at hm
      exact htext _ List.mem_cons_self placeholder (Placeholder.references_subset_of_isInfix hp hm)
    have hsourceBound : Bounded registry.size [directive.source] := hpiece (List.infix_append _ _ _)
    obtain ⟨hgrown, hhosts⟩ := hbodies hregistry (hsource.bounded_bodies hsourceBound)
    have hle := hrun.size_le
    have hpush : Ordered (grown.push directive) :=
      hgrown.push hindex (bounded_cons.mpr ⟨hsourceBound.mono hle, hhosts⟩)
    refine hnext hpush ?_
    rw [Array.size_push, bounded_append, bounded_cons]
    refine ⟨hleft.mono (by omega), ?_, hright.mono (by omega)⟩
    intro text ht placeholder hp
    rw [List.mem_singleton.mp ht] at hp
    rcases Placeholder.mem_references_insert directive.isMarker_placeholder hp with hp | rfl | hp
    · have hbefore := hpiece (List.append_assoc before directive.source after ▸
        (List.prefix_append before (directive.source ++ after)).isInfix)
      exact (hbefore before List.mem_cons_self placeholder hp).trans_le (by omega)
    · exact hindex.trans_lt (Nat.lt_succ_self _)
    · have hafter := hpiece (List.suffix_append (before ++ directive.source) after).isInfix
      exact (hafter after List.mem_cons_self placeholder hp).trans_le (by omega)

end Rewrites

end Template

end ComponentFile
