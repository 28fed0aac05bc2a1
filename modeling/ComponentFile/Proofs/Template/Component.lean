import ComponentFile.Proofs.Dictionary
import ComponentFile.Proofs.Template.Replacement
import ComponentFile.Template.Component
import Mathlib.Data.List.TakeWhile

/-!
# The sources of components

A component is read from connected text: its tag up to the closing angle bracket and, when it has
children, these and the closing tag. The values of its attributes stand one after the other inside
the tag; collecting them by name keeps some of them and may change their order.
-/

namespace ComponentFile

namespace Template

/-- The texts among the values of attributes. -/
def valueTexts (entries : List (Text × AttributeValue)) : List Text :=
  entries.filterMap fun (_, value) =>
    match value with
    | .text content => some content
    | .flag => none

@[simp] theorem valueTexts_text (name content : Text) (rest : List (Text × AttributeValue)) :
    valueTexts ((name, .text content) :: rest) = content :: valueTexts rest := rfl

@[simp] theorem valueTexts_flag (name : Text) (rest : List (Text × AttributeValue)) :
    valueTexts ((name, .flag) :: rest) = valueTexts rest := rfl

/-- The hosts of a component are its children and the texts of its attributes. -/
theorem hosts_component (tag runtime : Text) (attributes : Attributes) (children : Text) :
    (DirectiveKind.component tag runtime attributes children).hosts =
      children :: valueTexts attributes := rfl

private theorem eq_of_cutTagEnd?_eq_some {quote : Option Char} {text inside after : Text}
    (h : cutTagEnd? quote text = some (inside, after)) : text = inside ++ '>' :: after := by
  fun_induction cutTagEnd? quote text generalizing inside with
  | case1 => cases h
  | case2 quote c rest ih =>
    simp only [Option.map_eq_some_iff, Prod.exists, Prod.mk.injEq] at h
    obtain ⟨front, back, hcut, rfl, rfl⟩ := h
    rw [ih hcut, List.cons_append]
  | case3 rest =>
    simp only [Option.some.injEq, Prod.mk.injEq] at h
    obtain ⟨rfl, rfl⟩ := h
    rfl
  | case4 c rest hne ih =>
    simp only [Option.map_eq_some_iff, Prod.exists, Prod.mk.injEq] at h
    obtain ⟨front, back, hcut, rfl, rfl⟩ := h
    rw [ih hcut, List.cons_append]

/-- The value of an attribute and what follows it stand in the text in this order. -/
private theorem exists_attributeValue (text : Text) :
    ∃ before between, text =
      before ++ (attributeValue text).1 ++ between ++ (attributeValue text).2 := by
  have hspace := List.takeWhile_append_dropWhile (p := isSpace) (l := text)
  unfold attributeValue
  split
  · next h => exact ⟨text, [], by simp⟩
  · next c rest h =>
    rw [h] at hspace
    split
    · cases hcut : Text.cut? [c] rest with
      | none => exact ⟨text.takeWhile isSpace ++ [c], [], by simp [hspace]⟩
      | some pair =>
        have hrest := Text.eq_of_cut?_eq_some hcut
        refine ⟨text.takeWhile isSpace ++ [c], [c], ?_⟩
        calc
          text = text.takeWhile isSpace ++ c :: rest := hspace.symm
          _ = text.takeWhile isSpace ++ c :: (pair.1 ++ [c] ++ pair.2) := by rw [← hrest]
          _ = text.takeWhile isSpace ++ [c] ++ pair.1 ++ [c] ++ pair.2 := by
            simp only [List.append_assoc, List.cons_append, List.nil_append]
    · refine ⟨text.takeWhile isSpace, [], ?_⟩
      rw [List.append_nil, List.append_assoc, List.takeWhile_append_dropWhile, hspace]

/-- The texts of attributes stand in the inside of the tag, one after the other. -/
private theorem holds_attributeList (text : Text) :
    text.Holds (valueTexts (attributeList text)) := by
  fun_induction attributeList text with
  | case1 => exact .nil _
  | case2 text c rest hstart _ name value hname ih =>
    have hvalue : value <:+ text := by
      have hrest : c :: rest <:+ text := hstart ▸ List.dropWhile_suffix isSpace
      have hequals : '=' :: value <:+ rest :=
        hname ▸ (List.dropWhile_suffix isSpace).trans (List.dropWhile_suffix isAttributeChar)
      exact (List.suffix_cons _ value).trans (hequals.trans ((List.suffix_cons c rest).trans hrest))
    obtain ⟨before, between, he⟩ := exists_attributeValue value
    refine Text.Holds.of_isSuffix ?_ hvalue
    have hpieces := Text.Holds.cons before (attributeValue value).1 (ih.append_left between)
    rwa [← List.append_assoc, ← he] at hpieces
  | case3 text c rest hstart _ name _ ih =>
    have hrest : c :: rest <:+ text := hstart ▸ List.dropWhile_suffix isSpace
    refine ih.of_isSuffix ((List.dropWhile_suffix isSpace).trans ?_)
    exact (List.dropWhile_suffix isAttributeChar).trans ((List.suffix_cons c rest).trans hrest)
  | case4 text c rest hstart _ ih =>
    have hrest : c :: rest <:+ text := hstart ▸ List.dropWhile_suffix isSpace
    exact ih.of_isSuffix ((List.suffix_cons c rest).trans hrest)

/-- What follows the tag of a component: nothing, or its children and the closing tag. -/
inductive Component.ReadsChildren (component : Component) : Text → Prop
  /-- The component has no children. -/
  | none (h : component.children = []) : ReadsChildren component []
  /-- The children stand before the closing tag. -/
  | some (children back : Text) (h : component.children = children.trim) :
      ReadsChildren component (children ++ back ++ ['>'])

/-- The source of a component: its tag, with the attributes inside, and its children. -/
structure Component.HasSource (component : Component) (source : Text) : Prop where
  /-- The tag is capitalised and the attributes are read from its inside. -/
  parts : ∃ (c : Char) (name inside tail front : Text), c.isUpper = true ∧
    source = '<' :: c :: name ++ inside ++ '>' :: tail ∧ front <+: inside ∧
    component.attributes = attributesOf front ∧ component.ReadsChildren tail

/-- The inside of a tag without the slash of a tag that closes itself. -/
def attributePart (inside : Text) : Text :=
  if inside.getLast? == some '/' then inside.dropLast else inside

private theorem attributePart_isPrefix (inside : Text) : attributePart inside <+: inside := by
  unfold attributePart
  split
  · exact List.dropLast_prefix inside
  · exact List.prefix_rfl

/-- What follows the end of a tag does not matter for finding it. -/
private theorem cutTagEnd?_of_append {quote : Option Char} {inside after : Text}
    (h : cutTagEnd? quote (inside ++ '>' :: after) = some (inside, after)) (other : Text) :
    cutTagEnd? quote (inside ++ '>' :: other) = some (inside, other) := by
  induction inside generalizing quote with
  | nil =>
    cases quote with
    | none => rfl
    | some quote => simp [cutTagEnd?] at h
  | cons c inside ih =>
    have hnext {quote : Option Char}
        (hcut : (cutTagEnd? quote (inside ++ '>' :: after)).map (fun cut => (c :: cut.1, cut.2)) =
          some (c :: inside, after)) :
        (cutTagEnd? quote (inside ++ '>' :: other)).map (fun cut => (c :: cut.1, cut.2)) =
          some (c :: inside, other) := by
      simp only [Option.map_eq_some_iff, Prod.exists, Prod.mk.injEq, List.cons.injEq,
        true_and] at hcut
      obtain ⟨front, back, hcut, rfl, rfl⟩ := hcut
      rw [ih hcut, Option.map_some]
    cases quote with
    | some quote => exact hnext h
    | none =>
      rw [List.cons_append, cutTagEnd?] at h ⊢
      split
      · next hc => simp [hc] at h
      · next hc =>
        rw [if_neg hc] at h
        exact hnext h

/-- The component is read from the source, whose tag holds `inside` and is followed by `tail`. -/
structure Component.IsRead (component : Component) (source inside tail : Text) : Prop where
  /-- The source is the tag and what follows it. -/
  source_eq : source = '<' :: component.tag ++ inside ++ '>' :: tail
  /-- The name is capitalised. -/
  isUpper : ∃ c name, component.tag = c :: name ∧ c.isUpper = true
  /-- The name has no other characters. -/
  isTagChar_of_mem : ∀ c ∈ component.tag, isTagChar c = true
  /-- The tag ends at its first angle bracket outside quotes. -/
  cutTagEnd?_eq : cutTagEnd? none (inside ++ '>' :: tail) = some (inside, tail)
  /-- The attributes are those inside the tag. -/
  attributes_eq : component.attributes = attributesOf (attributePart inside)
  /-- Nothing follows, or the children and the closing tag. -/
  tail_eq : tail = [] ∧ component.children = [] ∨
    ∃ children, tail = children ++ ('<' :: '/' :: component.tag ++ ['>']) ∧
      component.children = children.trim

/-- A component is read from the start of a text. -/
theorem isRead_of_component {runtimeName text : Text} {found : Component} {length : Nat}
    (h : component runtimeName text = some (found, length)) :
    ∃ inside tail, found.IsRead (text.take length) inside tail := by
  simp only [component, Option.bind_eq_bind, Option.bind_eq_some_iff] at h
  obtain ⟨rest, hrest, h⟩ := h
  split at h
  · cases h
  next hupper =>
  split at h
  · cases h
  obtain ⟨⟨inside, after⟩, hcut, h⟩ := Option.bind_eq_some_iff.mp h
  have hafter := eq_of_cutTagEnd?_eq_some hcut
  rw [hafter] at hcut
  have htag : ∃ c name, rest.takeWhile isTagChar = c :: name ∧ c.isUpper = true := by
    obtain ⟨c, name, htag⟩ : ∃ c name, rest.takeWhile isTagChar = c :: name :=
      List.exists_cons_of_ne_nil fun hnil => by simp [hnil] at hupper
    exact ⟨c, name, htag, by simpa [htag] using hupper⟩
  have hchars (c : Char) (hc : c ∈ rest.takeWhile isTagChar) : isTagChar c = true :=
    List.mem_takeWhile_imp hc
  have htext : text = '<' :: rest.takeWhile isTagChar ++ inside ++ '>' :: after := by
    rw [Text.after?_eq_some_iff.mp hrest, List.append_assoc, ← hafter, List.cons_append,
      List.nil_append, List.cons_append, List.takeWhile_append_dropWhile]
  have htake (tail back : Text) (htail : after = tail ++ back) :
      text.take ((rest.takeWhile isTagChar).length + inside.length + 2 + tail.length) =
        '<' :: rest.takeWhile isTagChar ++ inside ++ '>' :: tail := by
    have hlength : (rest.takeWhile isTagChar).length + inside.length + 2 + tail.length =
        ('<' :: rest.takeWhile isTagChar ++ inside ++ '>' :: tail).length := by
      simp only [List.length_append, List.length_cons]
      omega
    have hjoin : text = ('<' :: rest.takeWhile isTagChar ++ inside ++ '>' :: tail) ++ back := by
      simp only [htext, htail, List.append_assoc, List.cons_append]
    rw [hlength, hjoin, List.take_left]
  dsimp only at h
  split at h
  · next d runtime _ =>
    split at h
    · next children back hchildren =>
      simp only [Option.pure_def, Option.some.injEq, Prod.mk.injEq] at h
      obtain ⟨rfl, rfl⟩ := h
      split at hchildren
      · cases hchildren
      · have hafter := Text.eq_of_cut?_eq_some hchildren
        refine ⟨inside, _, ?_, htag, hchars, cutTagEnd?_of_append hcut _, rfl,
          .inr ⟨children, rfl, rfl⟩⟩
        rw [← htake _ back hafter]
        simp only [List.length_append, Nat.add_assoc]
    · simp only [Option.pure_def, Option.some.injEq, Prod.mk.injEq] at h
      obtain ⟨rfl, rfl⟩ := h
      exact ⟨inside, [], htake [] after rfl, htag, hchars, cutTagEnd?_of_append hcut _, rfl,
        .inl ⟨rfl, rfl⟩⟩
  · cases h

/-- A component that is read has its source. -/
theorem Component.IsRead.hasSource {found : Component} {source inside tail : Text}
    (h : found.IsRead source inside tail) : found.HasSource source := by
  obtain ⟨c, name, htag, hc⟩ := h.isUpper
  refine ⟨c, name, inside, tail, attributePart inside, hc, ?_, attributePart_isPrefix inside,
    h.attributes_eq, ?_⟩
  · rw [h.source_eq, htag]
  · rcases h.tail_eq with ⟨rfl, hnone⟩ | ⟨children, rfl, hchildren⟩
    · exact .none hnone
    · rw [← List.append_assoc]
      exact .some children ('<' :: '/' :: found.tag) hchildren

/-- A component is read from its source at the start of a text. -/
private theorem hasSource_of_component {runtimeName text : Text} {found : Component} {length : Nat}
    (h : component runtimeName text = some (found, length)) :
    found.HasSource (text.take length) := by
  obtain ⟨inside, tail, hread⟩ := isRead_of_component h
  exact hread.hasSource

/-- A component can be replaced, since its hosts are pieces of its source. -/
theorem replaceable_component {source : Text} {found : Component} (h : found.HasSource source) :
    Replaceable (fun found registry =>
      (.component found.tag found.runtime found.attributes found.children, registry))
        source found := by
  intro registry
  refine ⟨?_, .refl _ _⟩
  obtain ⟨c, name, inside, tail, front, hc, rfl, ⟨back, rfl⟩, hattributes, htail⟩ := h.parts
  have hchildren : tail.Holds [found.children] := by
    cases htail with
    | none hnone => exact hnone ▸ Text.Holds.self []
    | some children back hsome =>
      rw [hsome, List.append_assoc]
      exact (Text.Holds.self children).map_trim.append_right _
  have hvalues : (valueTexts found.attributes).Subperm (valueTexts (attributeList front)) := by
    rw [hattributes]
    obtain ⟨same, hperm, hsub⟩ := Dictionary.ofList_subperm (attributeList front)
    exact ⟨valueTexts same, hperm.filterMap _, hsub.filterMap _⟩
  have hholds := (holds_attributeList front).append_right (back ++ ['>'])
  refine ⟨⟨name ++ (front ++ back) ++ '>' :: tail, .tag c _ hc, ?_⟩, ?_⟩
  · refine ⟨valueTexts (attributeList front) ++ [found.children], ?_, ?_⟩
    · have hall := (hholds.append hchildren).append_left name
      simpa only [List.append_assoc, List.cons_append, List.nil_append] using hall
    · exact ((List.subperm_cons found.children).mpr hvalues).trans
        (List.perm_append_singleton _ _).symm.subperm
  · intro d hd
    left
    cases htail with
    | none =>
      rw [List.getLast?_append] at hd
      exact (Option.some.inj hd).symm
    | some children back =>
      rw [← List.cons_append, ← List.append_assoc, List.getLast?_append] at hd
      exact (Option.some.inj hd).symm

/-- Taking out components is sound. -/
theorem sound_replaceComponents (runtimeName : Text) : Sound (replaceComponents runtimeName) := by
  refine sound_replace (Segment.sources_segments (component runtimeName))
    fun text source found hm => ?_
  obtain ⟨tail, length, hr, rfl⟩ := Segment.exists_of_mem_scan hm
  exact replaceable_component (hasSource_of_component hr)

end Template

end ComponentFile
