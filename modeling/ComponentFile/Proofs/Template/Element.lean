import ComponentFile.Proofs.Outline.Insertion
import ComponentFile.Proofs.Template.Attributes
import ComponentFile.Proofs.Text.Lines

/-!
# Written elements

A capitalised tag with attributes in the usual notation is read as a component when its runtime
attribute has a value, whatever follows it: the end of the tag is not confused with the angle
brackets and slashes in quoted values, and the last of several values for a name counts. One pass
takes such an element out and goes on with the text after it as if that text stood alone.
-/

namespace ComponentFile

/-! ## Places of directives -/

/-- The directive at a place further on. -/
def Directive.shift (bytes : Nat) (directive : Directive) : Directive :=
  { directive with start := directive.start + bytes, stop := directive.stop + bytes }

namespace Registry

/-- Items without bodies are replaced alike at a place further on, and after any directives of the
same number. -/
private theorem replaceFrom_shift {β : Type} (kind : β → DirectiveKind) (bytes offset : Nat)
    (segments : List (Segment β)) {registry other : Registry} (hsize : registry.size = other.size) :
    let build (value : β) (registry : Registry) := (kind value, registry)
    (replaceFrom build (offset + bytes) segments registry).1 =
        (replaceFrom build offset segments other).1 ∧
      ∃ later, (replaceFrom build offset segments other).2.toList = other.toList ++ later ∧
        (replaceFrom build (offset + bytes) segments registry).2.toList =
          registry.toList ++ later.map (Directive.shift bytes) := by
  intro build
  induction segments generalizing offset registry other with
  | nil => exact ⟨rfl, [], (List.append_nil _).symm, (List.append_nil _).symm⟩
  | cons segment rest ih =>
    cases segment with
    | char c =>
      obtain ⟨htext, later, hother, hmoved⟩ := ih (offset + c.utf8Size) hsize
      rw [Nat.add_right_comm] at htext hmoved
      exact ⟨congrArg (c :: ·) htext, later, hother, hmoved⟩
    | item source value =>
      let directive : Directive :=
        { index := other.size, kind := kind value, start := offset,
          stop := offset + source.byteSize, source }
      have hdirective : Directive.mk registry.size (kind value) (offset + bytes)
          (offset + bytes + source.byteSize)
          source = directive.shift bytes := by
        simp only [directive, Directive.shift, hsize, Nat.add_right_comm]
      have hpush : (registry.push (directive.shift bytes)).size = (other.push directive).size := by
        rw [Array.size_push, Array.size_push, hsize]
      obtain ⟨htext, later, hother, hmoved⟩ := ih (offset + source.byteSize) hpush
      rw [Nat.add_right_comm] at htext hmoved
      simp only [replaceFrom, register, build] at htext hother hmoved ⊢
      rw [hdirective, htext]
      refine ⟨rfl, directive :: later, ?_, ?_⟩
      · rw [hother, Array.toList_push, List.append_assoc, List.singleton_append]
      · rw [hmoved, Array.toList_push, List.append_assoc, List.singleton_append, List.map_cons]

/-- After plain characters and an item without bodies, what follows is replaced as if it stood
alone, with the places of its directives shifted. -/
private theorem replace_plain_item {β : Type} (kind : β → DirectiveKind) (lead source : Text)
    (value : β) (segments : List (Segment β)) (registry : Registry) :
    let build (value : β) (registry : Registry) := (kind value, registry)
    let directive : Directive :=
      { index := registry.size
        kind := kind value
        start := lead.byteSize
        stop := lead.byteSize + source.byteSize
        source }
    let whole := replace build (Segment.plain lead ++ .item source value :: segments) registry
    let alone := replace build segments (registry.push directive)
    whole.1 = lead ++ directive.placeholder.render ++ alone.1 ∧
      ∃ later, alone.2.toList = registry.toList ++ directive :: later ∧
        whole.2.toList = registry.toList ++
          directive :: later.map (Directive.shift (lead.byteSize + source.byteSize)) := by
  intro build directive whole alone
  let bytes := lead.byteSize + source.byteSize
  let back := replaceFrom build bytes segments (registry.push directive)
  have hwhole : whole = (lead ++ (directive.placeholder.render ++ back.1), back.2) := by
    simp only [whole, replace]
    rw [replaceFrom_append, replaceFrom_plain, Segment.sources_plain, Nat.zero_add]
    rfl
  obtain ⟨htext, later, halone, hback⟩ :=
    replaceFrom_shift kind bytes 0 segments (rfl : (registry.push directive).size = _)
  rw [Nat.zero_add] at htext hback
  rw [Array.toList_push, List.append_assoc, List.singleton_append] at halone hback
  refine ⟨?_, later, halone, ?_⟩
  · rw [hwhole, List.append_assoc]
    exact congrArg (fun text => lead ++ (directive.placeholder.render ++ text)) htext
  · rw [hwhole]
    exact hback

end Registry

namespace Template

/-! ## Where a tag ends -/

/-- Before a quote there is no end of a tag. -/
theorem cutTagEnd?_append {piece : Text} (h : ∀ c ∈ piece, c ≠ '>' ∧ c ≠ '"' ∧ c ≠ '\'')
    (rest : Text) :
    cutTagEnd? none (piece ++ rest) =
      (cutTagEnd? none rest).map fun (inside, after) => (piece ++ inside, after) := by
  induction piece with
  | nil =>
    rw [List.nil_append]
    exact (Option.map_id_apply).symm
  | cons c piece ih =>
    obtain ⟨hc, hquote, hsingle⟩ := h c List.mem_cons_self
    rw [List.cons_append, cutTagEnd?, if_neg hc, if_neg (not_or.mpr ⟨hquote, hsingle⟩),
      ih fun d hd => h d (List.mem_cons_of_mem _ hd), Option.map_map]
    rfl

private theorem cutTagEnd?_inside {quote : Char} {value : Text} (h : quote ∉ value) (rest : Text) :
    cutTagEnd? (some quote) (value ++ quote :: rest) =
      (cutTagEnd? none rest).map fun (inside, after) => (value ++ quote :: inside, after) := by
  induction value with
  | nil => rw [List.nil_append, cutTagEnd?, if_pos rfl]; rfl
  | cons c value ih =>
    rw [List.mem_cons, not_or] at h
    rw [List.cons_append, cutTagEnd?, if_neg (Ne.symm h.1), ih h.2, Option.map_map]
    rfl

private theorem cutTagEnd?_quoted {quote : Char} {value : Text}
    (hquote : quote = '"' ∨ quote = '\'') (h : quote ∉ value) (rest : Text) :
    cutTagEnd? none (quote :: (value ++ quote :: rest)) =
      (cutTagEnd? none rest).map fun (inside, after) =>
        (quote :: (value ++ quote :: inside), after) := by
  have hbracket : quote ≠ '>' := by rcases hquote with rfl | rfl <;> decide
  rw [cutTagEnd?, if_neg hbracket, if_pos hquote, cutTagEnd?_inside h, Option.map_map]
  rfl

namespace WrittenAttribute

/-- White space and the name hold no quotes and no angle bracket. -/
theorem bareChars (written : WrittenAttribute) :
    ∀ c ∈ written.space ++ written.name, c ≠ '>' ∧ c ≠ '"' ∧ c ≠ '\'' := by
  intro c hc
  rcases List.mem_append.mp hc with hc | hc
  · have hspace := written.isSpace_of_mem c hc
    refine ⟨?_, ?_, ?_⟩ <;> rintro rfl <;> cases hspace
  · have hname := written.isNameChar_of_mem c hc
    refine ⟨?_, ?_, ?_⟩ <;> rintro rfl <;> cases hname

/-- An attribute does not end a tag. -/
theorem cutTagEnd?_text (written : WrittenAttribute) (rest : Text) :
    cutTagEnd? none (written.text ++ rest) =
      (cutTagEnd? none rest).map fun (inside, after) => (written.text ++ inside, after) := by
  have hfront := written.bareChars
  unfold text
  cases written.form with
  | flag =>
    rw [AttributeForm.text, List.append_nil]
    exact cutTagEnd?_append hfront rest
  | plain value _ hchars =>
    refine cutTagEnd?_append (fun c hc => ?_) rest
    rcases List.mem_append.mp hc with hc | hc
    · exact hfront c hc
    rcases List.mem_cons.mp hc with rfl | hc
    · decide
    · have hplain := hchars c hc
      refine ⟨?_, ?_, ?_⟩ <;> rintro rfl <;> cases hplain
  | quoted quote value hquote hfree =>
    have hequals : ∀ c ∈ written.space ++ written.name ++ ['='], c ≠ '>' ∧ c ≠ '"' ∧ c ≠ '\'' := by
      intro c hc
      rcases List.mem_append.mp hc with hc | hc
      · exact hfront c hc
      · rw [List.mem_singleton.mp hc]
        decide
    have hall := cutTagEnd?_append hequals (quote :: (value ++ quote :: rest))
    rw [cutTagEnd?_quoted hquote hfree, Option.map_map] at hall
    simp only [AttributeForm.text, List.append_assoc, List.cons_append, List.nil_append] at hall ⊢
    rw [hall]
    rfl

end WrittenAttribute

/-- Attributes and white space do not end a tag. -/
theorem cutTagEnd?_attributesText (attributes : List WrittenAttribute) {trailing : Text}
    (h : ∀ c ∈ trailing, isSpace c = true) (rest : Text) :
    cutTagEnd? none (attributesText attributes trailing ++ rest) =
      (cutTagEnd? none rest).map fun (inside, after) =>
        (attributesText attributes trailing ++ inside, after) := by
  induction attributes with
  | nil =>
    refine cutTagEnd?_append (fun c hc => ?_) rest
    have hspace := h c hc
    refine ⟨?_, ?_, ?_⟩ <;> rintro rfl <;> cases hspace
  | cons written attributes ih =>
    rw [attributesText_cons, List.append_assoc, written.cutTagEnd?_text, ih, Option.map_map]
    simp only [Function.comp_def, List.append_assoc]

/-! ## Elements -/

/-- How the tag of an element ends. -/
inductive TagEnding where
  /-- The tag closes itself. -/
  | selfClosing
  /-- Children and a closing tag follow. -/
  | enclosing (children : Text)

/-- The closing tag of a name. -/
def closingTag (tag : Text) : Text := '<' :: '/' :: tag ++ ['>']

/-- A value without quotes holds no slash. -/
def AttributeForm.SlashFree : AttributeForm → Prop
  | .flag | .quoted _ _ _ _ => True
  | .plain value _ _ => '/' ∉ value

/-- An element with its attributes and the white space behind them. -/
structure WrittenElement where
  tag : Text
  attributes : List WrittenAttribute
  trailing : Text
  ending : TagEnding
  isUpper : ∃ c name, tag = c :: name ∧ c.isUpper = true
  isTagChar_of_mem : ∀ c ∈ tag, isTagChar c = true
  slashFree : ∀ written ∈ attributes, written.form.SlashFree
  isSpace_of_mem : ∀ c ∈ trailing, isSpace c = true
  closingTag_not_infix : ∀ children, ending = .enclosing children → ¬closingTag tag <:+: children

namespace WrittenElement

/-- The text of an element. -/
def text (element : WrittenElement) : Text :=
  '<' :: element.tag ++ attributesText element.attributes element.trailing ++
    match element.ending with
    | .selfClosing => ['/', '>']
    | .enclosing children => '>' :: children ++ closingTag element.tag

/-- The text between the tags. -/
def children (element : WrittenElement) : Text :=
  match element.ending with
  | .selfClosing => []
  | .enclosing children => children

/-- The names and values in the order in which they are written. -/
def entries (element : WrittenElement) : List (Text × AttributeValue) :=
  element.attributes.map WrittenAttribute.entry

end WrittenElement

/-- An attribute does not end with a slash. -/
theorem WrittenAttribute.exists_text_eq_concat (written : WrittenAttribute)
    (h : written.form.SlashFree) :
    ∃ front c, written.text = front ++ [c] ∧ c ≠ '/' := by
  unfold WrittenAttribute.text
  cases hform : written.form with
  | flag =>
    obtain ⟨front, c, hname⟩ :=
      (List.eq_nil_or_concat' written.name).resolve_left written.name_ne_nil
    have hchar := written.isNameChar_of_mem c (hname ▸ List.mem_concat_self)
    refine ⟨written.space ++ front,
      c, by rw [hname, AttributeForm.text, List.append_nil, List.append_assoc], ?_⟩
    rintro rfl
    cases hchar
  | quoted quote value hquote _ =>
    refine ⟨written.space ++ written.name ++ '=' :: quote :: value, quote, ?_, ?_⟩
    · simp only [AttributeForm.text, List.append_assoc, List.cons_append]
    · rcases hquote with rfl | rfl <;> decide
  | plain value hne _ =>
    rw [hform] at h
    obtain ⟨front, c, rfl⟩ := (List.eq_nil_or_concat' value).resolve_left hne
    refine ⟨written.space ++ written.name ++ '=' :: front, c, ?_, ?_⟩
    · simp only [AttributeForm.text, List.append_assoc, List.cons_append]
    · rintro rfl
      exact h List.mem_concat_self

private theorem getLast?_attributesText {attributes : List WrittenAttribute} {trailing : Text}
    (h : ∀ written ∈ attributes, written.form.SlashFree)
    (htrailing : ∀ c ∈ trailing, isSpace c = true) :
    ((attributesText attributes trailing).getLast? == some '/') = false := by
  rw [beq_eq_false_iff_ne, attributesText]
  rcases List.eq_nil_or_concat' trailing with rfl | ⟨front, c, rfl⟩
  · rw [List.append_nil]
    rcases List.eq_nil_or_concat' attributes with rfl | ⟨others, written, rfl⟩
    · rw [List.flatMap_nil, List.getLast?_nil]
      exact (Option.some_ne_none '/').symm
    · obtain ⟨front, c, htext, hc⟩ := written.exists_text_eq_concat (h written List.mem_concat_self)
      rw [List.flatMap_append, List.flatMap_singleton, htext, ← List.append_assoc,
        List.getLast?_concat]
      exact fun he => hc (Option.some.inj he)
  · rw [← List.append_assoc, List.getLast?_concat]
    intro he
    have hspace := htrailing c List.mem_concat_self
    rw [Option.some.inj he] at hspace
    cases hspace

/-- A tag with its inside, and what follows it, is read by its attributes. -/
theorem component_tag {runtimeName tag inside after : Text}
    (hupper : ∃ c name, tag = c :: name ∧ c.isUpper = true) (hchars : ∀ c ∈ tag, isTagChar c = true)
    (hspace : ∃ c rest, inside = c :: rest ∧ isSpace c = true)
    (hcut : cutTagEnd? none (inside ++ '>' :: after) = some (inside, after)) {runtime : Text}
    (hne : runtime ≠ [])
    (hruntime : Dictionary.get? runtimeName (attributesOf (attributePart inside)) =
      some (.text runtime)) :
    component runtimeName ('<' :: tag ++ inside ++ '>' :: after) =
      some (match
          if inside.getLast? == some '/' then none else Text.cut? (closingTag tag) after with
        | some (children, _) => (⟨tag, runtime, attributesOf (attributePart inside), children.trim⟩,
            tag.length + inside.length + 2 + children.length + (closingTag tag).length)
        | none =>
          (⟨tag, runtime, attributesOf (attributePart inside), []⟩,
            tag.length + inside.length + 2)) := by
  obtain ⟨c, name, htag, hc⟩ := hupper
  obtain ⟨d, rest, hinside, hd⟩ := hspace
  obtain ⟨r, more, hvalue⟩ := List.exists_cons_of_ne_nil hne
  have hstop : ∀ c ∈ (inside ++ '>' :: after).head?, isTagChar c = false := by
    intro e he
    rw [hinside] at he
    rw [← Option.some.inj he]
    cases htagChar : isTagChar d with
    | false => rfl
    | true =>
      simp only [isSpace, Bool.or_eq_true, beq_iff_eq] at hd
      rcases hd with (((rfl | rfl) | rfl) | rfl) | rfl <;> cases htagChar
  have htake : (tag ++ (inside ++ '>' :: after)).takeWhile isTagChar = tag := by
    rw [List.takeWhile_append_of_pos hchars, Text.takeWhile_of_head hstop, List.append_nil]
  have hdrop : (tag ++ (inside ++ '>' :: after)).dropWhile isTagChar = inside ++ '>' :: after := by
    rw [List.dropWhile_append_of_pos hchars, Text.dropWhile_of_head hstop]
  have hfirst : (tag.head?.any Char.isUpper) = true := by
    rw [htag]
    exact hc
  have hnext : ((inside ++ '>' :: after).head?.any fun c => isSpace c || c == '/' || c == '>') =
      true := by
    rw [hinside, List.cons_append, List.head?_cons, Option.any_some, hd, Bool.true_or, Bool.true_or]
  have htext : '<' :: tag ++ inside ++ '>' :: after = '<' :: (tag ++ (inside ++ '>' :: after)) := by
    rw [List.cons_append, List.cons_append, List.append_assoc]
  rw [attributePart, hvalue] at hruntime
  rw [htext, component]
  simp only [Text.after?, if_true, Option.bind_eq_bind, Option.bind_some, htake, hdrop, hfirst,
    hnext, Bool.not_true, Bool.false_eq_true, if_false, hcut, hruntime, Option.pure_def, hvalue]
  rw [attributePart, closingTag]
  generalize (if inside.getLast? == some '/' then none
    else Text.cut? ('<' :: '/' :: tag ++ ['>']) after) = closing
  cases closing with
  | none => rfl
  | some parts => rfl

/-- A closing tag has one opening angle bracket, its first character. -/
private theorem not_mem_closingTag {tag : Text} (h : ∀ c ∈ tag, isTagChar c = true) :
    '<' ∉ '/' :: tag ++ ['>'] := by
  intro hm
  rcases List.mem_append.mp hm with hm | hm
  · rcases List.mem_cons.mp hm with he | hm
    · cases he
    · exact absurd (h _ hm) (by decide)
  · exact absurd hm (by decide)

namespace WrittenElement

/-- The component that an element is; `runtime` is the value of its runtime attribute. -/
def component (runtime : Text) (element : WrittenElement) : Component where
  tag := element.tag
  runtime
  attributes := Dictionary.ofList element.entries
  children := element.children.trim

/-- The attributes of an element are read back from their text. -/
theorem attributesOf_attributesText (element : WrittenElement) :
    attributesOf (attributesText element.attributes element.trailing) =
      Dictionary.ofList element.entries := by
  rw [attributesOf, attributeList_attributesText _ element.isSpace_of_mem, entries]

section

variable (element : WrittenElement) {runtimeName runtime : Text}
  (hruntime : element.entries.reverse.lookup runtimeName = some (.text runtime))
  (hne : runtime ≠ [])

include hruntime

/-- An element with a runtime attribute has white space after its tag. -/
theorem exists_attributesText_eq_cons :
    ∃ c rest, attributesText element.attributes element.trailing = c :: rest ∧
      isSpace c = true := by
  have hattributes : element.attributes ≠ [] := by
    intro hnil
    rw [entries, hnil] at hruntime
    cases hruntime
  obtain ⟨written, others, hattributes⟩ := List.exists_cons_of_ne_nil hattributes
  obtain ⟨c, space, hspace⟩ := List.exists_cons_of_ne_nil written.space_ne_nil
  refine ⟨c, space ++ written.name ++ written.form.text ++ attributesText others element.trailing,
    ?_, ?_⟩
  · rw [hattributes, attributesText_cons, WrittenAttribute.text, hspace]
    rfl
  · exact written.isSpace_of_mem c (hspace ▸ List.mem_cons_self)

/-- The runtime is found among the attributes that are read. -/
theorem get?_attributesOf :
    Dictionary.get? runtimeName
        (attributesOf (attributesText element.attributes element.trailing)) =
      some (.text runtime) := by
  rw [element.attributesOf_attributesText, Dictionary.get?_ofList, hruntime]

include hne

/-- A tag that closes itself is read as a component without children. -/
private theorem component_selfClosing (rest : Text) :
    Template.component runtimeName
        ('<' :: element.tag ++ attributesText element.attributes element.trailing ++ '/' ::
          '>' :: rest) =
      some (⟨element.tag, runtime, Dictionary.ofList element.entries, []⟩,
        element.tag.length + (attributesText element.attributes element.trailing).length + 3) := by
  obtain ⟨c, more, hfirst, hc⟩ := element.exists_attributesText_eq_cons hruntime
  have hget := element.get?_attributesOf hruntime
  have hall := element.attributesOf_attributesText
  have hcut := cutTagEnd?_attributesText element.attributes element.isSpace_of_mem
    ('/' :: '>' :: rest)
  generalize attributesText element.attributes element.trailing = inside at *
  have hpart : attributePart (inside ++ ['/']) = inside := by
    rw [attributePart, List.getLast?_concat, beq_self_eq_true, if_pos rfl, List.dropLast_concat]
  have hspace : ∃ c rest, inside ++ ['/'] = c :: rest ∧ isSpace c = true :=
    ⟨c, more ++ ['/'], by rw [hfirst, List.cons_append], hc⟩
  have hend : cutTagEnd? none ((inside ++ ['/']) ++ '>' :: rest) =
      some (inside ++ ['/'], rest) := by
    rw [List.append_assoc]
    exact hcut
  have hread := component_tag element.isUpper element.isTagChar_of_mem hspace hend hne
    (hpart.symm ▸ hget)
  simp only [List.getLast?_concat, beq_self_eq_true, if_true, hpart, hall, List.length_append,
    List.length_singleton, List.append_assoc, List.cons_append, List.nil_append] at hread ⊢
  exact hread

/-- A tag with a closing tag is read as a component with the text between them as its children. -/
private theorem component_enclosing {children : Text}
    (hchildren : ¬closingTag element.tag <:+: children) (rest : Text) :
    Template.component runtimeName
      ('<' :: element.tag ++ attributesText element.attributes element.trailing ++
        '>' :: (children ++ closingTag element.tag ++ rest)) =
      some (⟨element.tag, runtime, Dictionary.ofList element.entries, children.trim⟩,
        element.tag.length + (attributesText element.attributes element.trailing).length + 2 +
            children.length +
          (closingTag element.tag).length) := by
  have hlast := getLast?_attributesText element.slashFree element.isSpace_of_mem
  have hpart : attributePart (attributesText element.attributes element.trailing) =
      attributesText element.attributes element.trailing := by
    rw [attributePart, hlast, if_neg Bool.false_ne_true]
  have hend := cutTagEnd?_attributesText element.attributes element.isSpace_of_mem
    ('>' :: (children ++ closingTag element.tag ++ rest))
  simp only [cutTagEnd?, if_true, Option.map_some, List.append_nil] at hend
  have hclosing : Text.cut? (closingTag element.tag) (children ++ closingTag element.tag ++ rest) =
      some (children, rest) :=
    Text.cut?_of_not_infix rest
      (Text.not_isInfix_append_dropLast (not_mem_closingTag element.isTagChar_of_mem) hchildren)
  have hread := component_tag element.isUpper element.isTagChar_of_mem
    (element.exists_attributesText_eq_cons hruntime) hend hne
      (hpart.symm ▸ element.get?_attributesOf hruntime)
  simpa only [hlast, Bool.false_eq_true, if_false, hpart, element.attributesOf_attributesText,
    hclosing] using hread

/-- An element whose runtime attribute has a value is read as its component, whatever follows it. -/
theorem component_append (rest : Text) :
    Template.component runtimeName (element.text ++ rest) =
      some (element.component runtime, element.text.length) := by
  unfold text component children
  cases hending : element.ending with
  | selfClosing =>
    have hread := element.component_selfClosing hruntime hne rest
    simp only [List.append_assoc, List.cons_append, List.nil_append] at hread ⊢
    refine hread.trans (congrArg some (congrArg (Prod.mk _) ?_))
    simp only [List.length_cons, List.length_append, List.length_nil]
    omega
  | enclosing children =>
    have hread := element.component_enclosing hruntime hne
      (element.closingTag_not_infix children hending) rest
    simp only [List.append_assoc, List.cons_append] at hread ⊢
    refine hread.trans (congrArg some (congrArg (Prod.mk _) ?_))
    simp only [List.length_cons, List.length_append]
    omega

end

end WrittenElement

/-! ## Taking out an element -/

/-- Text without opening angle brackets starts no component. -/
theorem passes_component_of_not_mem (name : Text) {text : Text} (h : '<' ∉ text) :
    Passes (component name) text := by
  intro tail rest hne htail
  obtain ⟨c, tail, rfl⟩ := List.exists_cons_of_ne_nil hne
  refine component_eq_none_of_head name fun hc => ?_
  exact absurd (htail.subset (hc ▸ List.mem_cons_self)) h

/-- The segments of a text with an element are the text before it, the element and the segments
after it. -/
theorem WrittenElement.segments_append (element : WrittenElement) {runtimeName runtime lead : Text}
    (hlead : '<' ∉ lead)
    (hruntime : element.entries.reverse.lookup runtimeName = some (.text runtime))
    (hne : runtime ≠ []) (rest : Text) :
    Segment.segments (Template.component runtimeName) (lead ++ element.text ++ rest) =
      Segment.plain lead ++ .item element.text (element.component runtime) ::
        Segment.segments (Template.component runtimeName) rest := by
  have htext : element.text ≠ [] := List.cons_ne_nil _ _
  rw [Segment.segments, List.append_assoc,
    Segment.scan_of_passes (passes_component_of_not_mem runtimeName hlead),
    Segment.scan_item htext (element.component_append hruntime hne rest), Segment.segments]

/-- An element whose runtime attribute has a value, after a text without opening angle brackets, is
taken out whole: its directive has the tag, the runtime, the last value of each name and the trimmed
children, and what follows it is treated as if it stood alone, with the places of its directives
shifted. -/
theorem replaceComponents_element (element : WrittenElement) {runtimeName runtime lead : Text}
    (hlead : '<' ∉ lead)
    (hruntime : element.entries.reverse.lookup runtimeName = some (.text runtime))
    (hne : runtime ≠ []) (rest : Text) (registry : Registry) :
    ∃ attributes : Attributes, Dictionary.Increasing attributes ∧
      (∀ name, Dictionary.get? name attributes = element.entries.reverse.lookup name) ∧
      let directive : Directive :=
        { index := registry.size
          kind := .component element.tag runtime attributes element.children.trim
          start := lead.byteSize
          stop := lead.byteSize + element.text.byteSize
          source := element.text }
      let whole := replaceComponents runtimeName (lead ++ element.text ++ rest) registry
      let alone := replaceComponents runtimeName rest (registry.push directive)
      whole.1 = lead ++ directive.placeholder.render ++ alone.1 ∧
        ∃ later, alone.2.toList = registry.toList ++ directive :: later ∧
          whole.2.toList = registry.toList ++
            directive :: later.map (Directive.shift (lead.byteSize + element.text.byteSize)) := by
  refine ⟨Dictionary.ofList element.entries, Dictionary.increasing_ofList _, ?_, ?_⟩
  · exact fun name => Dictionary.get?_ofList name element.entries
  unfold replaceComponents
  rw [element.segments_append hlead hruntime hne rest]
  exact Registry.replace_plain_item
    (fun found => .component found.tag found.runtime found.attributes found.children) lead
      element.text
    (element.component runtime) (Segment.segments (component runtimeName) rest) registry

/-- Brackets, a closing tag and a slash in a quoted value end nothing, and the second of two
runtimes counts. -/
theorem replaceComponents_element_two_runtimes :
    ∃ attributes : Attributes,
      Dictionary.get? ['r'] attributes = some (.text ['y']) ∧
        Dictionary.get? ['o'] attributes = some .flag ∧
        Dictionary.get? ['t'] attributes = some (.text "></A>/".toList) ∧
        let source := "<A r=x o t='></A>/' r=\"y\"> z </A>".toList
        let directive : Directive :=
          { index := 0, kind := .component ['A'] ['y'] attributes ['z'], start := 2,
            stop := 35, source }
        replaceComponents ['r'] ("q ".toList ++ source ++ " <b".toList) #[] =
          ("q ".toList ++ directive.placeholder.render ++ " <b".toList, #[directive]) := by
  let named (name : Char) (form : AttributeForm) (hname : isNameChar name = true) :
      WrittenAttribute :=
    ⟨[' '], [name], form, List.cons_ne_nil _ _, List.all_eq_true.mp rfl, List.cons_ne_nil _ _,
      fun c hc => List.mem_singleton.mp hc ▸ hname⟩
  let element : WrittenElement :=
    { tag := ['A']
      attributes :=
        [named 'r' (.plain ['x'] (List.cons_ne_nil _ _) (List.all_eq_true.mp rfl)) rfl,
          named 'o' .flag rfl, named 't' (.quoted '\'' "></A>/".toList (.inr rfl) (by decide)) rfl,
          named 'r' (.quoted '"' ['y'] (.inl rfl) (by decide)) rfl]
      trailing := []
      ending := .enclosing " z ".toList
      isUpper := ⟨'A', [], rfl, rfl⟩
      isTagChar_of_mem := List.all_eq_true.mp rfl
      slashFree := by simp [named, AttributeForm.SlashFree]
      isSpace_of_mem := nofun
      closingTag_not_infix := by rintro children ⟨⟩; decide }
  have hlead : '<' ∉ "q ".toList := by decide
  have hruntime : element.entries.reverse.lookup ['r'] = some (.text ['y']) := by rfl
  obtain ⟨attributes, -, hvalues, htext, later, halone, hwhole⟩ :=
    replaceComponents_element element hlead hruntime (List.cons_ne_nil _ _) " <b".toList #[]
  have hnone : [] = later := (List.cons.inj halone).2
  have hsource : element.text = "<A r=x o t='></A>/' r=\"y\"> z </A>".toList := by rfl
  have hchildren : element.children.trim = ['z'] := by rfl
  have hstart : Text.byteSize "q ".toList = 2 := by rfl
  have hsize : Text.byteSize "<A r=x o t='></A>/' r=\"y\"> z </A>".toList = 33 := by rfl
  simp only [← hnone, hsource, hchildren, hstart, hsize] at htext hwhole
  exact ⟨attributes, hvalues _, hvalues _, hvalues _, Prod.ext htext (Array.toList_inj.mp hwhole)⟩

end Template

end ComponentFile
