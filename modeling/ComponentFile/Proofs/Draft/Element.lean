import ComponentFile.Proofs.Template.Element

/-!
# Elements that are components

A capitalised tag that closes itself and has the runtime attribute is read as one component,
whatever stands after it. Placeholders start no component.
-/

namespace ComponentFile.Template

/-- The text can be the name of the runtime attribute. -/
structure IsAttributeName (name : Text) : Prop where
  ne_nil : name ≠ []
  isNameChar_of_mem : ∀ c ∈ name, isNameChar c = true
  braceFree : BraceFree name

/-- A tag that closes itself, with the value of its runtime attribute. -/
structure Element where
  tag : Text
  runtime : Text
  isUpper : ∃ c name, tag = c :: name ∧ c.isUpper = true
  isTagChar_of_mem : ∀ c ∈ tag, isTagChar c = true
  runtime_ne_nil : runtime ≠ []
  quote_not_mem : '"' ∉ runtime
  braceFree : BraceFree runtime

namespace Element

/-- The runtime attribute as it is written. -/
def written {name : Text} (hname : IsAttributeName name) (element : Element) :
    WrittenAttribute where
  space := [' ']
  name
  form := .quoted '"' element.runtime (.inl rfl) element.quote_not_mem
  space_ne_nil := List.cons_ne_nil _ _
  isSpace_of_mem := by simp [isSpace]
  name_ne_nil := hname.ne_nil
  isNameChar_of_mem := hname.isNameChar_of_mem

/-- What stands between the tag and the angle bracket. -/
def inside (name : Text) (element : Element) : Text :=
  [' '] ++ name ++ '=' :: '"' :: element.runtime ++ ['"', ' ', '/']

/-- The text of an element; `name` is the name of the runtime attribute. -/
def text (name : Text) (element : Element) : Text :=
  '<' :: element.tag ++ element.inside name ++ ['>']

/-- The component that an element is. -/
def component (name : Text) (element : Element) : Component where
  tag := element.tag
  runtime := element.runtime
  attributes := [(name, .text element.runtime)]
  children := []

private theorem braceFree_tag (element : Element) : BraceFree element.tag :=
  ⟨fun hm => absurd (element.isTagChar_of_mem _ hm) (by decide),
    fun hm => absurd (element.isTagChar_of_mem _ hm) (by decide)⟩

/-- The text of an element holds no braces. -/
theorem braceFree_text {name : Text} (hname : IsAttributeName name) (element : Element) :
    BraceFree (element.text name) := by
  obtain ⟨htag, htag'⟩ := element.braceFree_tag
  obtain ⟨hvalue, hvalue'⟩ := element.braceFree
  obtain ⟨hname, hname'⟩ := hname.braceFree
  constructor <;> simp [text, inside, *]

/-- The element with its only attribute as it is written. -/
def toWritten {name : Text} (hname : IsAttributeName name) (element : Element) :
    WrittenElement where
  tag := element.tag
  attributes := [element.written hname]
  trailing := [' ']
  ending := .selfClosing
  isUpper := element.isUpper
  isTagChar_of_mem := element.isTagChar_of_mem
  slashFree := by simp [written, AttributeForm.SlashFree]
  isSpace_of_mem := by simp [isSpace]
  closingTag_not_infix := nofun

/-- An element is written as such an element. -/
theorem text_toWritten {name : Text} (hname : IsAttributeName name) (element : Element) :
    (element.toWritten hname).text = element.text name := by
  simp only [WrittenElement.text, toWritten, attributesText, List.flatMap_cons, List.flatMap_nil,
    WrittenAttribute.text, written, AttributeForm.text, text, inside, List.append_assoc,
    List.cons_append, List.nil_append]

/-- An element is read as its component, whatever follows it. -/
theorem component_append {name : Text} (hname : IsAttributeName name) (element : Element)
    (rest : Text) :
    Template.component name (element.text name ++ rest) =
      some (element.component name, (element.text name).length) := by
  have hruntime : (element.toWritten hname).entries.reverse.lookup name =
      some (.text element.runtime) :=
    List.lookup_cons_self
  have hread := (element.toWritten hname).component_append hruntime element.runtime_ne_nil rest
  rwa [text_toWritten] at hread

end Element

/-- A placeholder starts no component. -/
theorem passes_component_render (name : Text) (directive : Directive) :
    Passes (component name) directive.placeholder.render := by
  obtain ⟨inner, he, hinner⟩ := Placeholder.render_edges directive.isMarker_placeholder
  have hfree : '<' ∉ '!' :: (inner ++ ['>']) := by
    simp only [List.mem_cons, List.mem_append, List.not_mem_nil, or_false, not_or]
    exact ⟨by decide, fun hm => absurd (hinner _ hm) (by decide), by decide⟩
  rw [he]
  refine passes_cons_iff.mpr ⟨fun rest => ?_, passes_component_of_not_mem name hfree⟩
  exact component_eq_none_of_head name fun _ => rfl

end ComponentFile.Template
