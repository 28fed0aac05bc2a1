import ComponentFile.Proofs.Document.Rules
import ComponentFile.Proofs.Validation.Layout
import ComponentFile.Proofs.Validation.Markup

/-!
# Where findings are

A finding at a place gives the byte offset in the file of the match of its rule. The rule reads the
content of a block, so the offset of the content is added, and this is looked up. Content that also
stands at the start of its block is looked up there, and this leaves only one kind of content with a
finding: copies of the opening tag of a template. The finding is then reported at the opening tag
itself. All other findings are reported in their place.
-/

namespace ComponentFile

namespace Validation

open Extraction Segment Text

/-! ## The match of a rule -/

/-- The entry of a name that is kept comes first, or all earlier entries have other names. -/
private theorem mem_or_of_mem_firstOfEach_append {β : Type} {name : Text} {value : β}
    {seen : List Text} {left right : List (Text × β)}
    (h : (name, value) ∈ firstOfEach seen (left ++ right)) :
    (name, value) ∈ left ∨
      name ∉ left.map Prod.fst ∧ ∃ seen, (name, value) ∈ firstOfEach seen right := by
  induction left generalizing seen with
  | nil => exact .inr ⟨List.not_mem_nil, seen, h⟩
  | cons entry left ih =>
    obtain ⟨first, other⟩ := entry
    have hunseen := (mem_map_fst_firstOfEach_iff.mp (List.mem_map_of_mem h)).2
    rw [List.cons_append, firstOfEach] at h
    split_ifs at h with hseen
    · have hne : name ≠ first := fun he => hunseen (he ▸ hseen)
      rcases ih h with hm | ⟨hnot, hlater⟩
      · exact .inl (List.mem_cons_of_mem _ hm)
      · exact .inr ⟨List.not_mem_cons_of_ne_of_not_mem hne hnot, hlater⟩
    · rcases List.mem_cons.mp h with he | h
      · exact .inl (he ▸ List.mem_cons_self)
      · have hnext := (mem_map_fst_firstOfEach_iff.mp (List.mem_map_of_mem h)).2
        rcases ih h with hm | ⟨hnot, hlater⟩
        · exact .inl (List.mem_cons_of_mem _ hm)
        · exact .inr ⟨List.not_mem_cons_of_ne_of_not_mem (List.ne_of_not_mem_cons hnext) hnot,
            hlater⟩

/-- Of entries that come from a list, the one of a name that is kept comes from the first member
with that name. -/
private theorem exists_of_mem_firstOfEach_flatMap {α β : Type} {f : α → List (Text × β)}
    {name : Text} {value : β} {seen : List Text} {members : List α}
    (h : (name, value) ∈ firstOfEach seen (members.flatMap f)) :
    ∃ front member back, members = front ++ member :: back ∧ (name, value) ∈ f member ∧
      ∀ earlier ∈ front, name ∉ (f earlier).map Prod.fst := by
  induction members generalizing seen with
  | nil => cases h
  | cons first members ih =>
    rw [List.flatMap_cons] at h
    rcases mem_or_of_mem_firstOfEach_append h with hm | ⟨hnot, later, hlater⟩
    · exact ⟨[], first, members, rfl, hm, nofun⟩
    · obtain ⟨front, member, back, rfl, hm, hfront⟩ := ih hlater
      exact ⟨first :: front, member, back, rfl, hm, List.forall_mem_cons.mpr ⟨hnot, hfront⟩⟩

private theorem exists_of_startsOf_eq_append {α : Type} {recognise : Recogniser α} {text : Text}
    {value : α} {start : Nat} {front back : List (α × Nat)}
    (h : startsOf recognise text = front ++ (value, start) :: back) :
    ∃ left mark right, segments recognise text = left ++ .item mark value :: right ∧
      start = (sources left).byteSize ∧ values left = front.map Prod.fst := by
  obtain ⟨before, rest, hlocated, rfl, hrest⟩ := List.map_eq_append_iff.mp h
  obtain ⟨⟨found, place, stop⟩, after, rfl, hitem, -⟩ := List.map_eq_cons_iff.mp hrest
  obtain ⟨rfl, rfl⟩ := Prod.mk.inj hitem
  obtain ⟨left, mark, right, hsegments, hplace, -, hvalues⟩ := exists_of_located_eq_append hlocated
  refine ⟨left, mark, right, hsegments, by rwa [Nat.zero_add] at hplace, ?_⟩
  rw [hvalues, List.map_map]
  rfl

/-- The mark at the byte offset of the content is the match of the rule that the finding is about:
for an interface one without a field, for a block tag the first one with its name, for an event
handler the first standard tag that has it. -/
def Matches (finding : Finding) (content mark : Text) (offset : Nat) : Prop :=
  match finding with
  | .emptyInterface _ =>
    ∃ left body right, segments interfaceBody content = left ++ .item mark body :: right ∧
      offset = (sources left).byteSize ∧ ':' ∉ body
  | .forbiddenTag tag _ =>
    ∃ left right, segments blockTag content = left ++ .item mark tag :: right ∧
      offset = (sources left).byteSize ∧ tag ∉ values left
  | .forbiddenEvent event name _ =>
    ∃ left attributes right, segments standardTag content = left ++ .item mark ⟨name,
        attributes⟩ :: right ∧
      offset = (sources left).byteSize ∧ event ∈ values (segments eventAttribute attributes) ∧
      ∀ earlier ∈ values left, event ∉ values (segments eventAttribute earlier.attributes)
  | _ => False

/-- A match was recognised at the front of a rest of the content. -/
theorem exists_isSuffix_of_segments_eq {α : Type} {recognise : Recogniser α} {text source : Text}
    {value : α} {left right : List (Segment α)}
    (h : segments recognise text = left ++ .item source value :: right) :
    ∃ tail length, tail <:+ text ∧ recognise tail = some (value, length) := by
  have hm : .item source value ∈ segments recognise text :=
    h ▸ List.mem_append_right left List.mem_cons_self
  obtain ⟨tail, length, hsuffix, hread, -⟩ := exists_isSuffix_of_mem_scan hm
  exact ⟨tail, length, hsuffix, hread⟩

/-- A match stands in the content. -/
theorem Matches.exists_append {finding : Finding} {content mark : Text} {offset : Nat}
    (h : Matches finding content mark offset) :
    ∃ front rest, content = front ++ mark ++ rest ∧ offset = front.byteSize := by
  have hsources {α : Type} {recognise : Recogniser α} {left right : List (Segment α)} {value : α}
      (hsegments : segments recognise content = left ++ .item mark value :: right) :
      content = sources left ++ mark ++ sources right := by
    rw [← sources_segments recognise content, hsegments, sources_append, sources_cons,
      List.append_assoc]
    rfl
  cases finding with
  | emptyInterface _ =>
    obtain ⟨left, body, right, hsegments, hoffset, -⟩ := h
    exact ⟨_, _, hsources hsegments, hoffset⟩
  | forbiddenTag _ _ =>
    obtain ⟨left, right, hsegments, hoffset, -⟩ := h
    exact ⟨_, _, hsources hsegments, hoffset⟩
  | forbiddenEvent _ _ _ =>
    obtain ⟨left, attributes, right, hsegments, hoffset, -⟩ := h
    exact ⟨_, _, hsources hsegments, hoffset⟩
  | duplicateBlock | missingEntry | invalidSignature | missingProps | emptyCondition |
      emptyBranchCondition
  | invalidLoop | unsupportedRuntime | unmatchedBraces => exact h.elim

/-- The categories of findings at a place. -/
def placedKinds : List DiagnosticKind := [.forbiddenTag, .forbiddenEventAttribute, .emptyInterface]

/-- Of the findings about client code, those at a place are at a match. -/
private theorem exists_matches_of_mem_checkScript {settings : Settings} {base : Nat}
    {content : Text} {finding : Finding} (h : finding ∈ checkScript settings base content)
    (hkind : finding.kind ∈ placedKinds) :
    finding.blockKind = .uiLogic ∧
      ∃ mark offset, Matches finding content mark offset ∧
        finding.position = some (.byte (base + offset)) := by
  rw [checkScript, List.mem_append, List.mem_filterMap] at h
  rcases h with h | ⟨⟨body, start, stop⟩, hm, h⟩
  · split_ifs at h
    · cases h
    · rw [List.mem_singleton.mp h] at hkind
      exact absurd hkind (by decide : DiagnosticKind.missingDefineProps ∉ placedKinds)
  · dsimp only at h
    split_ifs at h with hfield
    cases h
    obtain ⟨left, mark, right, hsegments, hstart, -⟩ := mem_located_iff.mp hm
    rw [Nat.zero_add] at hstart
    exact ⟨rfl, mark, start, ⟨left, body, right, hsegments, hstart, hfield⟩, rfl⟩

private theorem exists_matches_of_mem_checkMarkup {base : Nat} {content : Text} {finding : Finding}
    (h : finding ∈ checkMarkup base content) :
    finding.blockKind = .template ∧
      ∃ mark offset, Matches finding content mark offset ∧
        finding.position = some (.byte (base + offset)) := by
  rw [checkMarkup, List.mem_append, List.mem_map, List.mem_map] at h
  rcases h with ⟨⟨tag, start⟩, hm, rfl⟩ | ⟨⟨event, name, start⟩, hm, rfl⟩
  · rw [← List.flatMap_singleton' (startsOf blockTag content)] at hm
    obtain ⟨front, member, back, hstarts, hmember, hfront⟩ := exists_of_mem_firstOfEach_flatMap hm
    obtain rfl := List.mem_singleton.mp hmember
    obtain ⟨left, mark, right, hsegments, hstart, hvalues⟩ := exists_of_startsOf_eq_append hstarts
    refine ⟨rfl, mark, start, ⟨left, right, hsegments, hstart, ?_⟩, rfl⟩
    rw [hvalues, List.mem_map]
    rintro ⟨earlier, hearlier, he⟩
    exact hfront earlier hearlier (he ▸ List.mem_singleton_self _)
  · obtain ⟨front, ⟨⟨tag, attributes⟩, place⟩, back, hstarts, hmember, hfront⟩ :=
      exists_of_mem_firstOfEach_flatMap hm
    obtain ⟨⟨found, other⟩, hevent, he⟩ := List.mem_map.mp hmember
    cases he
    obtain ⟨left, mark, right, hsegments, hstart, hvalues⟩ := exists_of_startsOf_eq_append hstarts
    refine ⟨rfl, mark, start, ⟨left, attributes, right, hsegments, hstart, ?_, ?_⟩, rfl⟩
    · rw [← map_fst_startsOf]
      exact List.mem_map_of_mem hevent
    · rw [hvalues, List.forall_mem_map]
      rintro ⟨earlier, place⟩ hearlier hm
      rw [← map_fst_startsOf, List.mem_map] at hm
      obtain ⟨entry, hentry, rfl⟩ := hm
      exact hfront _ hearlier (List.mem_map.mpr ⟨_, List.mem_map_of_mem hentry, rfl⟩)

private theorem kind_not_mem_placedKinds_of_mem_checkDirectives {settings : Settings}
    {template : ProcessedTemplate} {finding : Finding}
    (h : finding ∈ checkDirectives settings template) : finding.kind ∉ placedKinds := by
  obtain ⟨directive, -, h⟩ := List.mem_flatMap.mp h
  rcases kind_mem_or_of_mem_checkDirective h with hkind | ⟨component, -, hruntime⟩
  · have hother : ∀ kind ∈ [DiagnosticKind.emptyCondition, .invalidEachDirective],
        kind ∉ placedKinds := by decide
    exact hother _ hkind
  · rw [kind_of_runtimeFinding? hruntime]
    decide

/-- A finding at a place is at a match in the content of its block. -/
theorem exists_matches_of_mem_findings {settings : Settings} {source : Text}
    {extraction : Extraction} {template : Option ProcessedTemplate} {finding : Finding}
    (h : finding ∈ findings settings source extraction template)
    (hkind : finding.kind ∈ placedKinds) :
    ∃ block mark offset, extraction.get? finding.blockKind = some block ∧
      Matches finding block.content mark offset ∧
      finding.position = some (.byte (contentOffset source block + offset)) := by
  rw [findings, List.mem_append, List.mem_flatMap] at h
  rcases h with h | ⟨⟨kind, block⟩, hpresent, h⟩
  · rw [kind_eq_of_mem_checkDuplicates h] at hkind
    exact absurd hkind (by decide)
  · obtain ⟨other, -, hentry⟩ := List.mem_filterMap.mp hpresent
    obtain ⟨found, hget, he⟩ := Option.map_eq_some_iff.mp hentry
    obtain ⟨rfl, rfl⟩ := Prod.mk.inj he
    cases other with
    | backend =>
      have hother : ∀ kind ∈ [DiagnosticKind.missingServerProps, .invalidFunctionSignature],
          kind ∉ placedKinds := by
        decide
      exact absurd hkind (hother _ (kind_mem_of_mem_checkBackend h))
    | uiLogic =>
      obtain ⟨hblock, mark, offset, hmatch, hposition⟩ := exists_matches_of_mem_checkScript h hkind
      exact ⟨found, mark, offset, hblock ▸ hget, hmatch, hposition⟩
    | template =>
      rcases List.mem_append.mp h with h | h
      · obtain ⟨hblock, mark, offset, hmatch, hposition⟩ := exists_matches_of_mem_checkMarkup h
        exact ⟨found, mark, offset, hblock ▸ hget, hmatch, hposition⟩
      · cases template with
        | none => cases h
        | some template => exact absurd hkind (kind_not_mem_placedKinds_of_mem_checkDirectives h)
    | style =>
      have hother : ∀ kind ∈ [DiagnosticKind.unmatchedBraces], kind ∉ placedKinds := by decide
      exact absurd hkind (hother _ (kind_mem_of_mem_checkStyle h))

/-! ## Tags in repeated markup -/

private theorem eq_append_of_afterAnyCase? {name text spelling rest : Text}
    (h : afterAnyCase? name text = some (spelling, rest)) :
    text = spelling ++ rest ∧ ∀ c ∈ spelling, ∃ letter ∈ name, sameLetter letter c = true := by
  induction name generalizing text spelling with
  | nil =>
    rw [afterAnyCase?] at h
    obtain ⟨rfl, rfl⟩ := Prod.mk.inj (Option.some.inj h)
    exact ⟨rfl, fun _ hc => absurd hc List.not_mem_nil⟩
  | cons letter name ih =>
    cases text with
    | nil => cases h
    | cons c text =>
      rw [afterAnyCase?] at h
      split_ifs at h with hsame
      obtain ⟨⟨others, after⟩, hothers, he⟩ := Option.map_eq_some_iff.mp h
      obtain ⟨rfl, rfl⟩ := Prod.mk.inj he
      obtain ⟨rfl, hletters⟩ := ih hothers
      refine ⟨rfl, List.forall_mem_cons.mpr ⟨⟨letter, List.mem_cons_self, hsame⟩, fun d hd => ?_⟩⟩
      obtain ⟨other, hother, hd⟩ := hletters d hd
      exact ⟨other, List.mem_cons_of_mem _ hother, hd⟩

/-- A block tag is an angle bracket, the letters of a name, and the rest of a tag. -/
theorem exists_of_blockTag {text tag : Text} {length : Nat}
    (h : blockTag text = some (tag, length)) :
    ∃ spelling rest found, text = '<' :: (spelling ++ rest) ∧ '>' ∉ spelling ∧
      tagRest? rest = some found ∧
      tag = Text.toLower spelling := by
  simp only [blockTag, Option.bind_eq_bind, Option.bind_eq_some_iff] at h
  obtain ⟨after, hopen, hfind⟩ := h
  obtain ⟨name, hname, hread⟩ := List.exists_of_findSome?_eq_some hfind
  simp only [Option.bind_eq_some_iff] at hread
  obtain ⟨⟨spelling, rest⟩, hspelling, found, hrest, hvalue⟩ := hread
  obtain ⟨rfl, hletters⟩ := eq_append_of_afterAnyCase? hspelling
  refine ⟨spelling, rest, found, after?_eq_some_iff.mp hopen, fun hm => ?_, hrest, ?_⟩
  · have hall : (blockTags.all fun name => name.all fun letter => !sameLetter letter '>') =
        true := by decide
    obtain ⟨letter, hletter, hsame⟩ := hletters '>' hm
    have hother := List.all_eq_true.mp (List.all_eq_true.mp hall name hname) letter hletter
    rw [hsame] at hother
    cases hother
  · exact (Prod.mk.inj (Option.some.inj hvalue)).1.symm

/-- A standard tag is an angle bracket, its name, and the rest of a tag with its attributes. -/
theorem exists_of_standardTag {text : Text} {tag : StandardTag} {length : Nat}
    (h : standardTag text = some (tag, length)) :
    ∃ rest found, text = '<' :: (tag.name ++ rest) ∧ '>' ∉ tag.name ∧ tagRest? rest = some found ∧
      tag.attributes = dropSlash (found.1.getD []) := by
  simp only [standardTag, Option.bind_eq_bind, Option.bind_eq_some_iff] at h
  obtain ⟨after, hopen, hfind⟩ := h
  obtain ⟨name, hname, hread⟩ := List.exists_of_findSome?_eq_some hfind
  simp only [Option.bind_eq_some_iff] at hread
  obtain ⟨rest, hrest, found, hfound, hvalue⟩ := hread
  obtain ⟨rfl, -⟩ := Prod.mk.inj (Option.some.inj hvalue)
  refine ⟨rest, found, ?_, fun hm => ?_, hfound, rfl⟩
  · rw [after?_eq_some_iff.mp hopen, after?_eq_some_iff.mp hrest]
    rfl
  · exact absurd (isAlphanum_of_mem_standardTags name hname '>' hm) (by decide)

/-- The opening tag of a template and white space behind it have one angle bracket that opens. -/
theorem not_mem_tail_openingTag {gap : Text} (hgap : gap.isBlankText = true) :
    '<' ∉ templateName ++ ['>'] ++ gap := by
  rw [List.mem_append, not_or]
  exact ⟨by decide, fun hm => absurd (List.all_eq_true.mp hgap '<' hm) (by decide)⟩

section

variable {gap content : Text} (hgap : gap.isBlankText = true)
  (hrepeat : content <+: openingTag templateName ++ gap ++ content)

include hgap hrepeat

/-- In content that is repeated behind the opening tag of a template, each tag is such an opening
tag. -/
private theorem eq_templateName_of_isInfix {spelling rest : Text} {found : Option Text × Nat}
    (htag : '<' :: (spelling ++ rest) <:+: content) (hspelling : '>' ∉ spelling)
    (hrest : tagRest? rest = some found) :
    spelling = templateName ∧ ∃ after, rest = '>' :: after := by
  obtain ⟨d, after, rfl, hd⟩ : ∃ d after, rest = d :: after ∧ d ∉ templateName := by
    cases rest with
    | nil => cases hrest
    | cons d after =>
      refine ⟨d, after, rfl, fun hm => ?_⟩
      have hall : (templateName.all fun c => !isBlank c && c != '>' && c != '/') = true := by decide
      have hname := List.all_eq_true.mp hall d hm
      simp only [Bool.and_eq_true, Bool.not_eq_true', bne_iff_ne] at hname
      obtain ⟨⟨hblank, hbracket⟩, hslash⟩ := hname
      rw [tagRest?_cons_eq_none hblank hbracket hslash] at hrest
      cases hrest
  have hfree := not_mem_tail_openingTag hgap
  have hword : '<' :: (spelling ++ [d]) <:+: content := by
    refine List.IsInfix.trans (List.IsPrefix.isInfix ?_) htag
    rw [List.append_cons spelling d after]
    exact List.cons_prefix_cons.mpr ⟨rfl, List.prefix_append _ _⟩
  have hsame : spelling ++ [d] = templateName ++ ['>'] := by
    rcases comparable_of_isPrefix_append hfree hrepeat hword with hshort | hlong
    · rcases List.prefix_concat_iff.mp (List.cons_prefix_cons.mp hshort).2 with he | hinner
      · exact he
      · exact absurd (hinner.subset List.mem_concat_self) hd
    · rcases List.prefix_concat_iff.mp (List.cons_prefix_cons.mp hlong).2 with he | hinner
      · exact he.symm
      · exact absurd (hinner.subset List.mem_concat_self) hspelling
  obtain ⟨hname, hbracket⟩ := List.append_inj' hsame rfl
  exact ⟨hname, after, by rw [(List.cons.inj hbracket).1]⟩

/-- In content that is repeated behind the opening tag of a template, the only finding at a place is
the one about the name of the template, and its match is at the start. -/
private theorem eq_of_matches_of_isPrefix {finding : Finding} {mark : Text} {offset : Nat}
    (hblock : finding.blockKind = .template) (hmatch : Matches finding content mark offset) :
    offset = 0 ∧ ∃ position, finding = .forbiddenTag templateName position := by
  cases finding with
  | forbiddenEvent event name _ =>
    obtain ⟨left, attributes, right, hsegments, -, hevent, -⟩ := hmatch
    obtain ⟨tail, length, hsuffix, htail⟩ := exists_isSuffix_of_segments_eq hsegments
    obtain ⟨rest, found, rfl, hname, hrest, hattributes⟩ := exists_of_standardTag htail
    obtain ⟨-, after, rfl⟩ := eq_templateName_of_isInfix hgap hrepeat hsuffix.isInfix hname hrest
    -- a tag that ends at once has no attributes
    obtain rfl := Option.some.inj hrest
    rw [show attributes = [] from hattributes] at hevent
    cases hevent
  | forbiddenTag tag position =>
    obtain ⟨left, right, hsegments, rfl, hfirst⟩ := hmatch
    obtain ⟨tail, length, hsuffix, htail⟩ := exists_isSuffix_of_segments_eq hsegments
    obtain ⟨spelling, rest, found, rfl, hspelling, hrest, rfl⟩ := exists_of_blockTag htail
    obtain ⟨rfl, after, rfl⟩ :=
      eq_templateName_of_isInfix hgap hrepeat hsuffix.isInfix hspelling hrest
    obtain ⟨more, rfl⟩ : openingTag templateName <+: content := by
      have hstart : openingTag templateName <+: openingTag templateName ++ gap ++ content := by
        rw [List.append_assoc]
        exact List.prefix_append _ _
      refine List.prefix_of_prefix_length_le hstart hrepeat
        (List.IsPrefix.length_le ?_ |>.trans hsuffix.length_le)
      exact List.prefix_append (openingTag templateName) after
    have hitem : segments blockTag (openingTag templateName ++ more) =
        .item (openingTag templateName) templateName :: segments blockTag more := rfl
    cases left with
    | nil => exact ⟨rfl, position, rfl⟩
    | cons segment left =>
      -- the tag at the start would be an earlier one with the same name
      obtain ⟨rfl, -⟩ := List.cons.inj (hitem.symm.trans hsegments)
      exact absurd List.mem_cons_self hfirst
  | emptyInterface => cases hblock
  | duplicateBlock | missingEntry | invalidSignature | missingProps | emptyCondition |
      emptyBranchCondition
  | invalidLoop | unsupportedRuntime | unmatchedBraces => exact hmatch.elim

end

/-! ## Findings in their place -/

/-- The finding is at the match of its rule in the file: as far behind the place that the content of
its block was taken from as the match stands in the content. -/
def InPlace (source : Text) (finding : Finding) : Prop :=
  ∃ block place mark offset, (Extraction.of source).get? finding.blockKind = some block ∧
    TakenFrom source finding.blockKind block place ∧ Matches finding block.content mark offset ∧
    finding.diagnostic.position = some (.byte (place + offset)) ∧
      StandsAt mark source (place + offset)

/-- A finding is in its place if the content of its block is looked up where it was taken from. -/
theorem Laid.inPlace {source : Text} {finding : Finding} {block : Block}
    {before gap back after mark : Text} {offset : Nat}
    (h : Laid source finding.blockKind block before gap back after)
    (hget : (Extraction.of source).get? finding.blockKind = some block)
    (hmatch : Matches finding block.content mark offset)
    (hposition : finding.position = some (.byte (contentOffset source block + offset)))
    (hoffset : contentOffset source block =
      block.start + finding.blockKind.opening.byteSize + gap.byteSize) :
    InPlace source finding := by
  obtain ⟨front, rest, hcontent, rfl⟩ := hmatch.exists_append
  rw [hoffset] at hposition
  exact ⟨block, _, mark, _, hget, ⟨before, gap, back, after, h, rfl⟩, hmatch, hposition,
    h.standsAt_content hcontent⟩

/-- An interface is found by a word with a letter that the opening tag of client code does not
have. -/
theorem Matches.mem_of_emptyInterface {content mark : Text} {position offset : Nat}
    (h : Matches (.emptyInterface position) content mark offset) : 'n' ∈ content := by
  obtain ⟨left, body, right, hsegments, -⟩ := h
  obtain ⟨tail, length, hsuffix, htail⟩ := exists_isSuffix_of_segments_eq hsegments
  simp only [interfaceBody, Option.bind_eq_bind, Option.bind_eq_some_iff] at htail
  obtain ⟨rest, hrest, -⟩ := htail
  rw [after?_eq_some_iff.mp hrest] at hsuffix
  exact hsuffix.subset (List.mem_append_left rest (by decide))

/-- Tags are found by their angle bracket. -/
theorem Matches.mem_of_template {finding : Finding} {content mark : Text} {offset : Nat}
    (hblock : finding.blockKind = .template) (h : Matches finding content mark offset) :
    '<' ∈ content := by
  cases finding with
  | forbiddenTag _ _ =>
    obtain ⟨left, right, hsegments, -⟩ := h
    obtain ⟨tail, length, hsuffix, htail⟩ := exists_isSuffix_of_segments_eq hsegments
    obtain ⟨spelling, rest, -, rfl, -⟩ := exists_of_blockTag htail
    exact hsuffix.subset List.mem_cons_self
  | forbiddenEvent _ _ _ =>
    obtain ⟨left, attributes, right, hsegments, -⟩ := h
    obtain ⟨tail, length, hsuffix, htail⟩ := exists_isSuffix_of_segments_eq hsegments
    obtain ⟨rest, -, rfl, -⟩ := exists_of_standardTag htail
    exact hsuffix.subset List.mem_cons_self
  | emptyInterface => cases hblock
  | duplicateBlock | missingEntry | invalidSignature | missingProps | emptyCondition |
      emptyBranchCondition
  | invalidLoop | unsupportedRuntime | unmatchedBraces => exact h.elim

/-- Findings about interfaces are in their place, and client code that has one does not stand at the
start of its block. -/
private theorem inPlace_emptyInterface {source mark : Text} {block : Block} {position offset : Nat}
    (hget : (Extraction.of source).uiLogic = some block)
    (hmatch : Matches (.emptyInterface position) block.content mark offset)
    (hposition : position = contentOffset source block + offset) :
    InPlace source (.emptyInterface position) ∧ ¬StandsAt block.content source block.start := by
  obtain ⟨before, gap, back, after, hlaid⟩ := exists_laid_uiLogic hget
  have hmem := hmatch.mem_of_emptyInterface
  have hfree : 'n' ∉ BlockKind.uiLogic.opening ++ gap := by
    rw [List.mem_append, not_or]
    refine ⟨by decide, ?_⟩
    rcases hlaid.dropped with rfl | ⟨rfl, -⟩
    · decide
    · exact List.not_mem_nil
  have hstands : ¬StandsAt block.content source block.start := by
    rw [hlaid.standsAt_start_iff]
    intro hprefix
    cases eq_nil_of_isPrefix_append hmem hfree hprefix
  refine ⟨hlaid.inPlace hget hmatch (congrArg (some ∘ Position.byte) hposition) ?_, hstands⟩
  exact hlaid.contentOffset_of_not_standsAt hmem (fun hm => hfree (List.mem_of_mem_tail hm)) hstands

/-- Findings about markup are in their place, unless the content of the template stands at the start
of its block. Then the finding is that of a template tag, and it is reported at the opening tag. -/
private theorem inPlace_or_eq_of_template {source mark : Text} {finding : Finding} {block : Block}
    {offset : Nat} (hget : (Extraction.of source).template = some block)
    (hblock : finding.blockKind = .template) (hmatch : Matches finding block.content mark offset)
    (hposition : finding.position = some (.byte (contentOffset source block + offset))) :
    (¬StandsAt block.content source block.start → InPlace source finding) ∧
      (StandsAt block.content source block.start →
        finding = .forbiddenTag templateName block.start) := by
  obtain ⟨before, gap, back, after, hlaid⟩ := exists_laid_template hget
  have hgap : gap.isBlankText = true := hlaid.dropped.1
  constructor
  · intro hstands
    have hfree : '<' ∉ (BlockKind.template.opening ++ gap).tail := not_mem_tail_openingTag hgap
    have hoffset := hlaid.contentOffset_of_not_standsAt
      (hmatch.mem_of_template hblock) hfree hstands
    rw [← hblock] at hlaid hoffset
    exact hlaid.inPlace (hblock ▸ hget) hmatch hposition hoffset
  · intro hstands
    obtain ⟨rfl, position, rfl⟩ :=
      eq_of_matches_of_isPrefix hgap (hlaid.standsAt_start_iff.mp hstands) hblock hmatch
    rw [hlaid.contentOffset_of_standsAt hstands, Nat.add_zero] at hposition
    have hplace : position = block.start := Position.byte.inj (Option.some.inj hposition)
    rw [hplace]

/-- A finding at the start of the template is not in its place. -/
theorem not_inPlace_of_start {source : Text} {block : Block}
    (hget : (Extraction.of source).template = some block) (tag : Text) :
    ¬InPlace source (.forbiddenTag tag block.start) := by
  rintro ⟨found, place, mark, offset, hfound, ⟨-, gap, -, -, -, rfl⟩, -, hposition, -⟩
  obtain rfl := Option.some.inj (hget.symm.trans hfound)
  have hplace : block.start = block.start + BlockKind.template.opening.byteSize +
      gap.byteSize + offset :=
    Position.byte.inj (Option.some.inj hposition)
  have hopening : BlockKind.template.opening.byteSize = 10 := rfl
  omega

/-- A finding at a place is in its place if and only if the content of its block does not also stand
at the start of the block. If it does, the finding is that of a template tag inside the template,
reported at the opening tag. -/
theorem inPlace_iff_not_standsAt_start {settings : Settings} {source : Text}
    {template : Option ProcessedTemplate} {finding : Finding}
    (h : finding ∈ findings settings source (Extraction.of source) template)
    (hkind : finding.kind ∈ placedKinds) :
    ∃ block, (Extraction.of source).get? finding.blockKind = some block ∧
      (InPlace source finding ↔ ¬StandsAt block.content source block.start) ∧
      (StandsAt block.content source block.start →
        finding = .forbiddenTag templateName block.start) := by
  obtain ⟨block, mark, offset, hget, hmatch, hposition⟩ := exists_matches_of_mem_findings h hkind
  refine ⟨block, hget, ?_⟩
  have htemplate (hblock : finding.blockKind = .template) : (InPlace source finding ↔
      ¬StandsAt block.content source block.start) ∧
        (StandsAt block.content source block.start →
          finding = .forbiddenTag templateName block.start) := by
    rw [hblock] at hget
    obtain ⟨hin, hout⟩ := inPlace_or_eq_of_template hget hblock hmatch hposition
    exact ⟨⟨fun hplace hstands => not_inPlace_of_start hget _ (hout hstands ▸ hplace), hin⟩, hout⟩
  cases finding with
  | emptyInterface position =>
    have hplace := Position.byte.inj (Option.some.inj hposition)
    obtain ⟨hin, hstands⟩ := inPlace_emptyInterface hget hmatch hplace
    exact ⟨iff_of_true hin hstands, fun hstart => absurd hstart hstands⟩
  | forbiddenTag => exact htemplate rfl
  | forbiddenEvent => exact htemplate rfl
  | duplicateBlock | missingEntry | invalidSignature | missingProps | emptyCondition |
      emptyBranchCondition
  | invalidLoop | unsupportedRuntime | unmatchedBraces => exact hmatch.elim

/-- What the rules for markup report about the content of the template is reported about the
file. -/
theorem mem_findings_of_mem_checkMarkup {settings : Settings} {source : Text}
    {extraction : Extraction} {template : Option ProcessedTemplate} {block : Block}
    {finding : Finding} (hget : extraction.template = some block)
    (h : finding ∈ checkMarkup (contentOffset source block) block.content) :
    finding ∈ findings settings source extraction template := by
  have hpresent : (BlockKind.template, block) ∈ extraction.present :=
    List.mem_filterMap.mpr
      ⟨.template, by decide, congrArg (Option.map (BlockKind.template, ·)) hget⟩
  exact List.mem_append_right _ (List.mem_flatMap.mpr ⟨_, hpresent, List.mem_append_left _ h⟩)

/-- A style tag in a template is reported where it stands. -/
theorem inPlace_styleTag :
    InPlace "<template> <style></style></template>".toList (.forbiddenTag styleName 11) := by
  have hget : (Extraction.of "<template> <style></style></template>".toList).template =
      some { content := "<style></style>".toList, start := 0, stop := 37, occurrences := 1 } := by
        decide +kernel
  have hmem : .forbiddenTag styleName 11 ∈
      findings {} "<template> <style></style></template>".toList
      (Extraction.of "<template> <style></style></template>".toList) none :=
    mem_findings_of_mem_checkMarkup hget (by decide +kernel)
  obtain ⟨block, hblock, hplace, -⟩ := inPlace_iff_not_standsAt_start hmem (by decide)
  obtain rfl := Option.some.inj (hget.symm.trans hblock)
  exact hplace.mpr (by decide +kernel)

/-- Not every finding at a place is in its place: a template tag inside a template that has nothing
else is reported at the opening tag. -/
theorem not_forall_inPlace :
    ¬∀ (settings : Settings) (source : Text) (template : Option ProcessedTemplate),
      ∀ finding ∈ findings settings source (Extraction.of source) template,
        finding.kind ∈ placedKinds → InPlace source finding := by
  intro h
  have hget : (Extraction.of "<template><template></template>".toList).template =
      some { content := openingTag templateName, start := 0, stop := 31, occurrences := 2 } := by
        decide +kernel
  have hmem : .forbiddenTag templateName 0 ∈ findings {} "<template><template></template>".toList
      (Extraction.of "<template><template></template>".toList) none :=
    mem_findings_of_mem_checkMarkup hget (by decide +kernel)
  exact not_inPlace_of_start hget templateName (h _ _ _ _ hmem (by decide))

end Validation

end ComponentFile
