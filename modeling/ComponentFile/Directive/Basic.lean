import ComponentFile.Dictionary
import ComponentFile.Text.Basic

/-!
# Directives

What a template asks for besides plain markup: inserted values, conditionals, loops, raw markup and
embedded components. The directives of a template form one flat list. A directive's index is its
place in that list, and processed text refers to it by a numbered placeholder only, so a nested
directive is a neighbour in the list and its placeholder stands in the processed body around it.
-/

namespace ComponentFile

/-- The value of an attribute. -/
inductive AttributeValue where
  /-- A value written after the name. -/
  | text (value : Text)
  /-- A bare name. -/
  | flag
  deriving DecidableEq, Repr

/-- The attributes of a tag, by name. -/
abbrev Attributes := Dictionary Text AttributeValue

/-- The ways in which an arm of a conditional begins. -/
inductive BranchKind where
  /-- The leading arm, whose condition belongs to the conditional. -/
  | primary
  /-- An arm with a condition of its own. -/
  | elseIf (condition : Text)
  /-- An arm without a condition. -/
  | otherwise
  deriving DecidableEq, Repr

/-- An arm of a conditional. -/
structure Branch where
  /-- How the arm begins. -/
  kind : BranchKind
  /-- The trimmed text of the arm. -/
  body : Text
  /-- The body with its directives replaced by placeholders. -/
  processedBody : Text
  deriving DecidableEq, Repr

/-- What a directive asks for. Expressions are kept as the text they are read from. -/
inductive DirectiveKind where
  /-- The value of an expression. -/
  | interpolation (expression : Text)
  /-- A choice between bodies. -/
  | conditional (condition : Text) (branches : List Branch)
  /-- A body for each item of a collection. A name that the header leaves out is empty. -/
  | loop (iterable item : Text) (indexName : Option Text) (body processedBody : Text)
  /-- The value of an expression as markup. -/
  | rawMarkup (content : Text)
  /-- A component that another runtime renders. -/
  | component (tag runtime : Text) (attributes : Attributes) (children : Text)
  deriving DecidableEq, Repr

/-- A directive and where it was found. -/
structure Directive where
  /-- The place in the list of directives. -/
  index : Nat
  /-- What the directive asks for. -/
  kind : DirectiveKind
  /-- The byte offset at which the directive starts in the text it was found in. -/
  start : Nat
  /-- The byte offset just past the directive. -/
  stop : Nat
  /-- The text of the directive. -/
  source : Text
  deriving DecidableEq, Repr

namespace DirectiveKind

/-- The word that stands for this kind of directive in placeholders. -/
def marker : DirectiveKind → Text
  | .interpolation _ => ['I', 'N', 'T', 'E', 'R', 'P', 'O', 'L', 'A', 'T', 'I', 'O', 'N']
  | .conditional _ _ => ['I', 'F', '_', 'D', 'I', 'R', 'E', 'C', 'T', 'I', 'V', 'E']
  | .loop _ _ _ _ _ => ['E', 'A', 'C', 'H', '_', 'D', 'I', 'R', 'E', 'C', 'T', 'I', 'V', 'E']
  | .rawMarkup _ => ['R', 'A', 'W', '_', 'H', 'T', 'M', 'L']
  | .component _ _ _ _ =>
    ['C', 'L', 'I', 'E', 'N', 'T', '_', 'C', 'O', 'M', 'P', 'O', 'N', 'E', 'N', 'T']

/-- The name of this kind of directive in counts and encodings. -/
def typeName : DirectiveKind → String
  | .interpolation _ => "interpolation"
  | .conditional _ _ => "if"
  | .loop _ _ _ _ _ => "each"
  | .rawMarkup _ => "raw_markup"
  | .component _ _ _ _ => "embedded_component"

/-- The texts of a directive that can hold placeholders of other directives. -/
def hosts : DirectiveKind → List Text
  | .interpolation _ | .rawMarkup _ => []
  | .conditional _ branches => branches.map Branch.processedBody
  | .loop _ _ _ _ processedBody => [processedBody]
  | .component _ _ attributes children =>
    children :: attributes.filterMap fun (_, value) =>
      match value with
      | .text content => some content
      | .flag => none

end DirectiveKind

end ComponentFile
