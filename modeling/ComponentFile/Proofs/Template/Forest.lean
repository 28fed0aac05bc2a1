import ComponentFile.Proofs.Template.Processing

/-!
# Placeholders form a forest

In a processed template every placeholder refers to a directive, no directive is referred to twice,
and a directive refers to earlier directives only. Following placeholders therefore always arrives
somewhere, never comes back, and reaches each directive on one way at most.
-/

namespace ComponentFile

namespace ProcessedTemplate

open Template

/-- The placeholders of a processed template, without their places. -/
theorem map_toPlaceholder_placeholders (template : ProcessedTemplate) :
    template.placeholders.map Placeholder.Found.toPlaceholder =
      template.hosts.flatMap Placeholder.references := by
  simp only [placeholders, List.map_flatMap]
  rfl

private theorem count_flatMap_references (placeholder : Placeholder) (texts : List Text) :
    (texts.flatMap Placeholder.references).count placeholder =
      Placeholder.mentions placeholder texts := by
  rw [List.count_flatMap]
  rfl

/-- Each directive of a template without placeholders is mentioned once at most, and nothing else
is. -/
theorem subperm_directives (settings : Settings) {text : Text} (h : Placeholder.Absent text) :
    ((process settings text).hosts.flatMap Placeholder.references).Subperm
      ((process settings text).directives.toList.map Directive.placeholder) := by
  rw [List.subperm_ext_iff]
  intro placeholder _
  have hle := (rewrites_process settings text).mentions_le placeholder
  simp only [Placeholder.mentions_cons, Placeholder.references_eq_nil_of_absent h] at hle
  rw [count_flatMap_references]
  simpa [hosts, hosted, Placeholder.mentions] using hle

/-- The placeholders of the template lead to directives, to none of them twice, and always on to
smaller indices. -/
structure IsForest (template : ProcessedTemplate) : Prop where
  /-- A directive stands at its index. -/
  index_eq : ∀ (k : Nat) (directive : Directive),
    template.directives[k]? = some directive → directive.index = k
  /-- Every placeholder has a directive with its index and its marker. -/
  resolves : ∀ found ∈ template.placeholders, (template.resolve? found.toPlaceholder).isSome = true
  /-- No index is mentioned twice in all hosts together. -/
  nodup_indices : (template.placeholders.map fun found => found.index).Nodup
  /-- The hosts and the source of a directive mention smaller indices only. -/
  earlier : ∀ (k : Nat) (directive : Directive), template.directives[k]? = some directive →
    ∀ text ∈ directive.source :: directive.kind.hosts,
      ∀ found ∈ Placeholder.findAll text, found.index < k

/-- The placeholder of a directive refers to it. -/
theorem resolve?_placeholder {template : ProcessedTemplate} (h : Ordered template.directives)
    {directive : Directive} (hm : directive ∈ template.directives.toList) :
    template.resolve? directive.placeholder = some directive := by
  simp only [resolve?, Directive.placeholder, h.getElem?_index hm, Option.filter_some, decide_true,
    if_true]

/-- In a template whose mentions are those of its directives, once at most, no index occurs
twice. -/
theorem nodup_of_subperm {registry : Registry} (h : Ordered registry) {mentioned : List Placeholder}
    (hsub : mentioned.Subperm (registry.toList.map Directive.placeholder)) :
    (mentioned.map Placeholder.index).Nodup := by
  obtain ⟨same, hperm, hsub⟩ := hsub
  have hindices : (same.map Placeholder.index).Sublist (List.range registry.size) := by
    have hmap := hsub.map Placeholder.index
    rwa [List.map_map, show Placeholder.index ∘ Directive.placeholder = Directive.index from rfl,
      h.indices] at hmap
  exact (hperm.map Placeholder.index).nodup_iff.mp (hindices.nodup List.nodup_range)

end ProcessedTemplate

open Template ProcessedTemplate in
/-- Processing a template without placeholders gives a forest, for all settings. -/
theorem isForest_process (settings : Settings) {text : Text} (h : Placeholder.Absent text) :
    (process settings text).IsForest := by
  obtain ⟨hordered, _⟩ := ordered_process settings h
  have hsub := subperm_directives settings h
  refine ⟨fun k directive hk => hordered.index_eq hk, ?_, ?_, ?_⟩
  · intro found hm
    have hmem : found.toPlaceholder ∈
        (process settings text).hosts.flatMap Placeholder.references := by
      rw [← map_toPlaceholder_placeholders]
      exact List.mem_map_of_mem hm
    obtain ⟨directive, hd, he⟩ := List.mem_map.mp (hsub.subset hmem)
    rw [← he, resolve?_placeholder hordered hd]
    rfl
  · have hnodup := nodup_of_subperm hordered hsub
    rwa [← map_toPlaceholder_placeholders, List.map_map] at hnodup
  · intro k directive hk host hhost found hfound
    have hmem : directive ∈ (process settings text).directives.toList := by
      rw [← Array.getElem?_toList] at hk
      exact List.mem_of_getElem? hk
    rw [← hordered.index_eq hk]
    exact hordered.earlier directive hmem host hhost _ (List.mem_map_of_mem hfound)

/-- A loop in a conditional in a component, and an interpolation in an attribute. -/
theorem isForest_process_nested :
    let text : Text := ("<A client=\"\x7b\x7bb\x7d\x7d\">\x7b\x7b@if c\x7d\x7d" ++
      "\x7b\x7b@each d as e\x7d\x7d\x7b\x7bf\x7d\x7d\x7b\x7b/each\x7d\x7d" ++
      "\x7b\x7b/if\x7d\x7d</A>").toList
    Placeholder.Absent text ∧ (Template.process {} text).IsForest := by
  intro text
  have habsent : Placeholder.Absent text := Placeholder.absent_of_references_eq_nil (by decide)
  exact ⟨habsent, isForest_process {} habsent⟩

end ComponentFile
