import ComponentFile.Document.Statistics
import ComponentFile.Proofs.Dictionary
import ComponentFile.Proofs.Document.Isolation

/-!
# What the counts of a document say

The counts by name are made by going through the sections, the diagnostics and the directives once
each, while the totals are lengths of lists. Both agree: a name has an entry if something of that
name is there, the entry is the number of such things, and the entries add up to the total. A
document that was read from a file has each kind of section once.
-/

namespace ComponentFile

/-- The counts list each name that some item has, once and with the number of items of that name,
and add up to the total number of items. -/
structure Tallies {α : Type} (name : α → String) (items : List α) (counts : Dictionary String Nat)
    (total : Nat) : Prop where
  increasing : Dictionary.Increasing counts
  mem_iff : ∀ key count, (key, count) ∈ counts ↔
    0 < count ∧ count = items.countP fun item => name item = key
  sum_eq : (counts.map Prod.snd).sum = total
  total_eq : total = items.length

/-- A tally of names counts the items by name. -/
theorem tallies_tally {α : Type} (name : α → String) (items : List α) :
    Tallies name items (Dictionary.tally (items.map name)) items.length where
  increasing := Dictionary.increasing_tally _
  mem_iff key count := by
    have hcount : items.countP (fun item => name item = key) = (items.map name).count key := by
      rw [List.count, List.countP_map]
      rfl
    rw [(Dictionary.increasing_tally _).mem_iff, Dictionary.get?_tally, hcount]
    by_cases hmem : key ∈ items.map name
    · have hpos := List.count_pos_iff.mpr hmem
      rw [if_pos hmem, Option.some.injEq]
      omega
    · rw [if_neg hmem, List.count_eq_zero_of_not_mem hmem]
      simp only [reduceCtorEq, false_iff]
      omega
  sum_eq := by rw [Dictionary.sum_tally, List.length_map]
  total_eq := rfl

/-- Different kinds of blocks have different names. -/
theorem BlockKind.name_injective : Function.Injective BlockKind.name := by
  intro kind other
  cases kind <;> cases other <;> decide

namespace Document

variable {Tree : Type}

section

variable {σ : Type} (settings : Settings) (analyze : BlockKind → Text → StateM σ (Analysis Tree))
  (source : Text) (start : σ)

/-- An analysis keeps the kind of a section. -/
theorem kind_withAnalysis (part : Section Tree) (analysis : Analysis Tree) :
    (part.withAnalysis analysis).kind = part.kind := by
  rw [withAnalysis_eq]

/-- A document that was read has no kind of section twice. -/
theorem nodup_kind_sections_read :
    ((read settings analyze source start).1.sections.map Section.kind).Nodup := by
  have hreading := reading_read settings analyze source start
  have hkinds : (read settings analyze source start).1.sections.map Section.kind =
      (analysesOf settings analyze source start).map fun pair => pair.1.kind := by
    rw [hreading.sections_eq, List.map_map]
    exact List.map_congr_left fun pair _ => kind_withAnalysis pair.1 pair.2
  rw [hkinds, hreading.kinds_eq]
  apply List.Nodup.filter
  decide

/-- The template of a document that was read has been processed. -/
private theorem exists_template_of_mem_read {part : Section Tree}
    (h : part ∈ (read settings analyze source start).1.sections) (hkind : part.kind = .template) :
    ∃ template, part.template = some template := by
  have hreading := reading_read settings analyze source start
  rw [hreading.sections_eq, List.mem_map] at h
  obtain ⟨⟨first, analysis⟩, hmem, rfl⟩ := h
  have hpart : first ∈ parts settings source := by
    rw [← hreading.parts_eq]
    exact List.mem_map_of_mem hmem
  obtain ⟨⟨kind, block⟩, -, rfl⟩ := List.mem_map.mp hpart
  obtain rfl : kind = .template := (kind_withAnalysis _ analysis).symm.trans hkind
  exact ⟨_, template_withAnalysis _ analysis⟩

end

section

variable {document : Document Tree}

/-- Where no kind comes twice, each section is the first of its kind. -/
private theorem section?_of_mem (hnodup : (document.sections.map Section.kind).Nodup)
    {part : Section Tree} (h : part ∈ document.sections) :
    document.section? part.kind = some part := by
  cases hfound : document.section? part.kind with
  | none => exact absurd (decide_eq_true rfl) (List.find?_eq_none.mp hfound part h)
  | some first =>
    have hkind : first.kind = part.kind := by simpa using List.find?_some hfound
    rw [List.inj_on_of_nodup_map hnodup (List.mem_of_find?_eq_some hfound) h hkind]

/-- A document without a template has no directives. -/
theorem directives_eq_nil (h : ∀ part ∈ document.sections, part.kind ≠ .template) :
    document.directives = [] := by
  have hnone : document.section? .template = none := List.find?_eq_none.mpr fun part hm => by
    simpa using h part hm
  rw [directives, hnone]
  rfl

end

end Document

namespace Statistics

/-- The counts of a document are those of its sections, its diagnostics and the directives of its
template. -/
structure Exact {Tree : Type} (document : Document Tree) (statistics : Statistics) : Prop where
  sections : Tallies (fun part : Section Tree => part.kind.name) document.sections
    statistics.sectionCounts
    statistics.totalSections
  diagnostics : Tallies (fun found : Diagnostic => found.kind.name) document.diagnostics
    statistics.diagnosticCounts
    statistics.totalDiagnostics
  directives : Tallies (fun directive : Directive => directive.kind.typeName) document.directives
    statistics.directiveCounts statistics.totalDirectives

/-- The counts of every document are exact. In a document that was read from a file each kind of
section is counted once, and the directives are those of the section that is the template. -/
theorem exact_of_and_of_read :
    (∀ {Tree : Type} (document : Document Tree), Exact document (Statistics.of document)) ∧
    ∀ {Tree σ : Type} (settings : Settings)
        (analyze : BlockKind → Text → StateM σ (Analysis Tree)) (source : Text) (start : σ),
      let document := (Document.read settings analyze source start).1
      (∀ entry ∈ (Statistics.of document).sectionCounts, entry.2 = 1) ∧
      (∀ part ∈ document.sections, part.kind = .template →
        ∃ template, part.template = some template ∧
          (Statistics.of document).totalDirectives = template.directives.toList.length) ∧
      ((∀ part ∈ document.sections, part.kind ≠ .template) →
        (Statistics.of document).totalDirectives = 0) := by
  have hexact {Tree : Type} (document : Document Tree) : Exact document (Statistics.of document) :=
    ⟨tallies_tally _ _, tallies_tally _ _, tallies_tally _ _⟩
  refine ⟨hexact, fun {Tree σ} settings analyze source start => ?_⟩
  have hnodup := Document.nodup_kind_sections_read settings analyze source start
  refine ⟨?_, ?_, ?_⟩
  · rintro ⟨name, count⟩ hmem
    obtain ⟨hpos, hcount⟩ := ((hexact _).sections.mem_iff name count).mp hmem
    have hnames := hnodup.map BlockKind.name_injective
    rw [List.map_map] at hnames
    have hle := List.nodup_iff_count_le_one.mp hnames name
    rw [List.count, List.countP_map] at hle
    have hsame : count ≤ 1 := hcount ▸ hle
    exact Nat.le_antisymm hsame hpos
  · intro part hmem hkind
    obtain ⟨template, htemplate⟩ := Document.exists_template_of_mem_read settings analyze
      source start hmem hkind
    have hsection := Document.section?_of_mem hnodup hmem
    refine ⟨template, htemplate, ?_⟩
    rw [hkind] at hsection
    rw [Statistics.of, Document.directives, hsection, Option.bind_eq_bind,
      Option.bind_some, htemplate]
  · intro hnone
    rw [Statistics.of, Document.directives_eq_nil hnone]
    rfl

end Statistics

end ComponentFile
