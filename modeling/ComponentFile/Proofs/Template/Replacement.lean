import ComponentFile.Proofs.Template.Rewriting
import ComponentFile.Proofs.Template.Segment
import ComponentFile.Template.Insertion

/-!
# Replacing segments

Replacing the items among the segments of a text is a run of `Rewrites`, provided each item can be
the source of its directive and building the directive rewrites its bodies. The two directives
without bodies, raw markup and interpolation, meet this at once: their sources stand between braces.
-/

namespace ComponentFile

namespace Segment

variable {α : Type}

/-- An item of a scan was recognised at some place of the text. -/
theorem exists_of_mem_scan {recognise : Recogniser α} {skip : Nat} {text source : Text} {value : α}
    (h : .item source value ∈ scan recognise skip text) :
    ∃ tail length, recognise tail = some (value, length) ∧ source = tail.take length := by
  obtain ⟨tail, length, -, hread, hsource⟩ := exists_isSuffix_of_mem_scan h
  exact ⟨tail, length, hread, hsource⟩

end Segment

namespace Template

/-- The item can be replaced: its source fits the directive built for it, and building the directive
rewrites the bodies into the hosts. -/
def Replaceable {α : Type} (build : α → Registry → DirectiveKind × Registry) (source : Text)
    (value : α) : Prop :=
  ∀ registry, IsSource source (build value registry).1.bodies ∧
    Rewrites (build value registry).1.bodies registry (build value registry).1.hosts
      (build value registry).2

/-- Replacing the items among segments is a run of replacements. -/
private theorem rewrites_replaceFrom {α : Type} {build : α → Registry → DirectiveKind × Registry}
    {segments : List (Segment α)}
    (h : ∀ source value, .item source value ∈ segments → Replaceable build source value)
    (before : Text) (offset : Nat) (registry : Registry) :
    Rewrites [before ++ Segment.sources segments] registry
      [before ++ (Registry.replaceFrom build offset segments registry).1]
      (Registry.replaceFrom build offset segments registry).2 := by
  induction segments generalizing before offset registry with
  | nil => exact .refl _ _
  | cons segment rest ih =>
    have hrest := fun source value hm => h source value (List.mem_cons_of_mem _ hm)
    cases segment with
    | char c =>
      have hnext := ih hrest (before ++ [c]) (offset + c.utf8Size) registry
      simpa only [Segment.sources_cons, Segment.source, Registry.replaceFrom, List.append_assoc,
        List.singleton_append] using hnext
    | item source value =>
      obtain ⟨hsource, hbodies⟩ := h source value List.mem_cons_self registry
      let directive : Directive :=
        { index := (build value registry).2.size, kind := (build value registry).1, start := offset,
          stop := offset + source.byteSize, source }
      have hnext := ih hrest (before ++ directive.placeholder.render) (offset + source.byteSize)
        ((build value registry).2.push directive)
      have hstep := Rewrites.step [] before (Segment.sources rest)
        [] directive rfl hsource hbodies hnext
      simpa only [Segment.sources_cons, Segment.source, Registry.replaceFrom, Registry.register,
        List.nil_append, List.append_assoc] using hstep

/-- A pass whose every application is a run of replacements. -/
def Sound (pass : Pass) : Prop :=
  ∀ text registry, Rewrites [text] registry [(pass text registry).1] (pass text registry).2

/-- Replacing all items of a reading that loses no text is sound. -/
theorem sound_replace {α : Type} {build : α → Registry → DirectiveKind × Registry}
    {read : Text → List (Segment α)} (hread : ∀ text, Segment.sources (read text) = text)
    (h : ∀ text source value, .item source value ∈ read text → Replaceable build source value) :
    Sound fun text registry => registry.replace build (read text) := by
  intro text registry
  simpa only [List.nil_append, hread, Registry.replace]
    using rewrites_replaceFrom (h text) [] 0 registry

/-- A text between braces can be the source of a directive. -/
theorem isSource_of_braces {rest : Text} {bodies : List Text} (h : rest.Supplies bodies)
    (hlast : rest.getLast? = some '}') : IsSource ('{' :: rest) bodies where
  start := ⟨rest, .brace rest, h⟩
  stop := by
    intro c hc
    rw [List.getLast?_cons, hlast] at hc
    exact Or.inr (Option.some.inj hc).symm

/-- A header and the text around it. -/
theorem eq_of_header?_eq_some {keyword text inner rest : Text}
    (h : header? keyword text = some (inner, rest)) :
    text = keyword ++ inner ++ closing ++ rest := by
  simp only [header?, Option.bind_eq_bind, Option.bind_eq_some_iff] at h
  obtain ⟨after, hafter, h⟩ := h
  split at h
  · cases h
  · split at h
    · rw [Text.after?_eq_some_iff.mp hafter, Text.eq_of_cut?_eq_some h]
      simp only [List.append_assoc]
    · cases h

/-- The characters of a header at the start of a text. -/
theorem take_headerLength (keyword inner rest : Text) :
    (keyword ++ inner ++ closing ++ rest).take (headerLength keyword inner) =
      keyword ++ inner ++ closing := by
  have hlength : headerLength keyword inner = (keyword ++ inner ++ closing).length := by
    simp only [headerLength, List.length_append]
  rw [hlength, List.take_left]

/-- A directive without bodies that stands between braces is replaceable. -/
theorem replaceable_of_braces {α : Type} {build : α → Registry → DirectiveKind × Registry}
    {value : α} (keyword inner : Text) (hkeyword : ∃ tail, keyword = '{' :: tail)
    (hbuild : ∀ registry, (build value registry).2 = registry)
    (hbodies : ∀ registry, (build value registry).1.bodies = [])
    (hhosts : ∀ registry, (build value registry).1.hosts = []) :
    Replaceable build (keyword ++ inner ++ closing) value := by
  intro registry
  obtain ⟨tail, rfl⟩ := hkeyword
  rw [hbodies, hhosts, hbuild]
  refine ⟨isSource_of_braces (Text.Holds.nil _).supplies ?_, .refl _ _⟩
  change (tail ++ inner ++ closing).getLast? = some '}'
  rw [List.getLast?_append]
  rfl

/-- Taking out raw markup is sound. -/
theorem sound_replaceRawMarkup : Sound replaceRawMarkup := by
  refine sound_replace (Segment.sources_segments rawMarkup) fun text source value hm => ?_
  obtain ⟨tail, length, hr, rfl⟩ := Segment.exists_of_mem_scan hm
  simp only [rawMarkup, Option.bind_eq_bind, Option.bind_eq_some_iff, Prod.exists] at hr
  obtain ⟨inner, rest, hheader, hr⟩ := hr
  split at hr
  · cases hr
  · simp only [Option.pure_def, Option.some.injEq, Prod.mk.injEq] at hr
    obtain ⟨rfl, rfl⟩ := hr
    rw [eq_of_header?_eq_some hheader, take_headerLength]
    exact replaceable_of_braces _ _ ⟨_, rfl⟩ (fun _ => rfl) (fun _ => rfl) fun _ => rfl

/-- What can stand between the braces of an interpolation. -/
structure IsExpression (inner : Text) : Prop where
  notBlank : inner.isBlankText = false
  noSigil : startsWithSigil inner.trim = false
  noBrace : '}' ∉ inner

/-- An interpolation is read exactly where one is written. -/
theorem interpolation_eq_some_iff {text expression : Text} {length : Nat} :
    interpolation text = some (expression, length) ↔
      ∃ inner rest, IsExpression inner ∧ text = opening ++ inner ++ closing ++ rest ∧
        expression = inner.trim ∧ length = headerLength opening inner := by
  constructor
  · intro h
    simp only [interpolation, Option.bind_eq_bind, Option.bind_eq_some_iff, Prod.exists] at h
    obtain ⟨after, hafter, inner, rest, hcut, h⟩ := h
    split at h
    · cases h
    next hfit =>
    simp only [Option.pure_def, Option.some.injEq, Prod.mk.injEq] at h
    obtain ⟨rfl, rfl⟩ := h
    simp only [Bool.or_eq_true, decide_eq_true_eq, not_or, Bool.not_eq_true] at hfit
    refine ⟨inner, rest, ⟨hfit.1.1, hfit.1.2, hfit.2⟩, ?_, rfl, rfl⟩
    rw [Text.after?_eq_some_iff.mp hafter, Text.eq_of_cut?_eq_some hcut]
    simp only [List.append_assoc]
  · rintro ⟨inner, rest, ⟨hblank, hsigil, hbrace⟩, rfl, rfl, rfl⟩
    have hcut : Text.cut? closing (inner ++ closing ++ rest) = some (inner, rest) :=
      Text.cut?_of_not_mem hbrace
    rw [interpolation, List.append_assoc, List.append_assoc, Text.after?_append,
      ← List.append_assoc]
    simp only [hcut, Option.bind_eq_bind, Option.bind_some, hblank, hsigil, hbrace, Bool.or_self,
      decide_false, Bool.false_eq_true, if_false, Option.pure_def]

/-- An expression between braces is read whatever follows. -/
theorem IsExpression.interpolation_append {inner : Text} (h : IsExpression inner) (rest : Text) :
    interpolation (opening ++ inner ++ closing ++ rest) =
      some (inner.trim, (opening ++ inner ++ closing).length) := by
  refine interpolation_eq_some_iff.mpr ⟨inner, rest, h, rfl, rfl, ?_⟩
  rw [headerLength, List.length_append, List.length_append]

/-- The source of an interpolation is its expression between braces. -/
theorem exists_of_mem_interpolation {text source expression : Text}
    (h : .item source expression ∈ Segment.segments interpolation text) :
    ∃ inner, IsExpression inner ∧ source = opening ++ inner ++ closing := by
  obtain ⟨tail, length, hread, rfl⟩ := Segment.exists_of_mem_scan h
  obtain ⟨inner, rest, hinner, rfl, -, rfl⟩ := interpolation_eq_some_iff.mp hread
  exact ⟨inner, hinner, take_headerLength _ _ _⟩

/-- Taking out interpolations is sound. -/
theorem sound_replaceInterpolations : Sound replaceInterpolations := by
  refine sound_replace (Segment.sources_segments interpolation) fun text source value hm => ?_
  obtain ⟨inner, -, rfl⟩ := exists_of_mem_interpolation hm
  exact replaceable_of_braces _ _ ⟨_, rfl⟩ (fun _ => rfl) (fun _ => rfl) fun _ => rfl

end Template

end ComponentFile
