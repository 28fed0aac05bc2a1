import ComponentFile.Template.Registry
import ComponentFile.Text.Blank

/-!
# Embedded components

A capitalised tag is an embedded component when its runtime attribute has a value. Its children run
up to the first closing tag of the same name; without one, or when the tag closes itself, it has
none. Reading goes on after a component, so components inside its children stay part of them.
-/

namespace ComponentFile.Template

/-- A component with its attributes and the trimmed text of its children. -/
structure Component where
  tag : Text
  runtime : Text
  attributes : Attributes
  children : Text
  deriving DecidableEq, Repr

/-- A character that may stand in the name of a component. -/
def isTagChar (c : Char) : Bool := c.isAlphanum || c == '_' || c == '-' || c == '.'

/-- Cuts at the first `>` outside quoted values; `quote` is the quote that ends the current one. -/
def cutTagEnd? : Option Char → Text → Option (Text × Text)
  | _, [] => none
  | some quote, c :: rest =>
    (cutTagEnd? (if c = quote then none else some quote) rest).map fun (inside, after) =>
      (c :: inside, after)
  | none, c :: rest =>
    if c = '>' then some ([], rest)
    else
      (cutTagEnd? (if c = '"' ∨ c = '\'' then some c else none) rest).map fun (inside, after) =>
        (c :: inside, after)

/-- A character that may stand in the name of an attribute. -/
def isAttributeChar (c : Char) : Bool := !(isSpace c || c == '=' || c == '/')

/-- Reads the value of an attribute after its equals sign: quoted, up to the next such quote or else
to the end, or a run without white space. -/
def attributeValue (text : Text) : Text × Text :=
  match text.dropWhile isSpace with
  | [] => ([], [])
  | c :: rest =>
    if c = '"' ∨ c = '\'' then (Text.cut? [c] rest).getD (rest, [])
    else ((c :: rest).takeWhile fun c => !isSpace c, (c :: rest).dropWhile fun c => !isSpace c)

/-- What follows a value is part of the text the value was read from. -/
theorem length_attributeValue_le (text : Text) :
    (attributeValue text).2.length ≤ text.length := by
  have hspace : (text.dropWhile isSpace).length ≤ text.length :=
    (List.dropWhile_sublist _).length_le
  unfold attributeValue
  split
  · simp
  · next c rest h =>
    rw [h] at hspace
    split
    · cases hcut : Text.cut? [c] rest with
      | none => simp
      | some pair =>
        have := congrArg List.length (Text.eq_of_cut?_eq_some hcut)
        simp only [List.length_append, List.length_cons, List.length_nil] at this hspace
        simp only [Option.getD_some]
        omega
    · exact Nat.le_trans (List.dropWhile_sublist _).length_le hspace

/-- Reads the attributes of a tag in order. An equals sign or slash without a name is passed
over. -/
def attributeList (text : Text) : List (Text × AttributeValue) :=
  match _start : text.dropWhile isSpace with
  | [] => []
  | c :: rest =>
    if isAttributeChar c then
      let name := c :: rest.takeWhile isAttributeChar
      match _name : (rest.dropWhile isAttributeChar).dropWhile isSpace with
      | '=' :: value =>
        (name, .text (attributeValue value).1) :: attributeList (attributeValue value).2
      | after => (name, .flag) :: attributeList after
    else attributeList rest
termination_by text.length
decreasing_by
  all_goals
    have hspace : (text.dropWhile isSpace).length ≤ text.length :=
      (List.dropWhile_sublist _).length_le
    have hname : ((rest.dropWhile isAttributeChar).dropWhile isSpace).length ≤ rest.length :=
      Nat.le_trans (List.dropWhile_sublist _).length_le (List.dropWhile_sublist _).length_le
    rw [_start, List.length_cons] at hspace
  · have := length_attributeValue_le value
    rw [_name, List.length_cons] at hname
    omega
  · rw [_name] at hname
    omega
  · omega

/-- Reads the attributes of a tag; of two values for a name the later one counts. -/
def attributesOf (text : Text) : Attributes := Dictionary.ofList (attributeList text)

/-- Reads a component at the start of a text; `runtimeName` is the name of the runtime attribute. -/
def component (runtimeName : Text) : Recogniser Component := fun text => do
  let rest ← Text.after? ['<'] text
  let tag := rest.takeWhile isTagChar
  let afterTag := rest.dropWhile isTagChar
  if !tag.head?.any Char.isUpper then none
  else if !afterTag.head?.any fun c => isSpace c || c == '/' || c == '>' then none
  else
    let (inside, after) ← cutTagEnd? none afterTag
    let closesItself := inside.getLast? == some '/'
    let attributes := attributesOf (if closesItself then inside.dropLast else inside)
    match Dictionary.get? runtimeName attributes with
    | some (.text (c :: runtime)) =>
      let closing := '<' :: '/' :: tag ++ ['>']
      let tagLength := tag.length + inside.length + 2
      match if closesItself then none else Text.cut? closing after with
      | some (children, _) =>
        return ({ tag, runtime := c :: runtime, attributes, children := children.trim },
          tagLength + children.length + closing.length)
      | none => return ({ tag, runtime := c :: runtime, attributes, children := [] }, tagLength)
    | _ => none

/-- One pass over the components of a text. -/
def replaceComponents (runtimeName : Text) : Pass := fun text registry =>
  let build (found : Component) (registry : Registry) : DirectiveKind × Registry :=
    (.component found.tag found.runtime found.attributes found.children, registry)
  registry.replace build (Segment.segments (component runtimeName) text)

end ComponentFile.Template
