import ComponentFile.Template.Processing

/-!
# Templates as outlines

The directives of a template nest: a loop has a body, a conditional has several. An outline keeps
that structure. It is written as a template (`Outline.text`), and a processed template shows an
outline again when the placeholders are followed into the processed bodies
(`ProcessedTemplate.outline`).
-/

namespace ComponentFile.Template

/-- What stands in a template without a body of its own. -/
inductive Insert where
  /-- A character of the markup. -/
  | char (c : Char)
  /-- The value of an expression. -/
  | interpolation (expression : Text)
  /-- The value of an expression as markup. -/
  | rawMarkup (content : Text)
  deriving DecidableEq, Repr

mutual

/-- A level of a template, with leaves of type `α`. Each node holds what follows it on its level. -/
inductive Outline (α : Type) where
  | nil
  | leaf (value : α) (next : Outline α)
  | loop (header : LoopHeader) (body next : Outline α)
  | conditional (condition : Text) (body : Outline α) (arms : Arms α) (next : Outline α)

/-- The further arms of a conditional, each with a condition or without. -/
inductive Arms (α : Type) where
  | nil
  | cons (condition : Option Text) (body : Outline α) (rest : Arms α)

end

variable {α : Type}

/-! ## Writing an outline -/

/-- The text of a leaf. -/
def Insert.text : Insert → Text
  | .char c => [c]
  | .interpolation expression => opening ++ expression ++ closing
  | .rawMarkup content => rawKeyword ++ (' ' :: content) ++ closing

/-- What stands in a loop header after the word `as`. -/
def LoopHeader.binding (header : LoopHeader) : Text :=
  match header.indexName with
  | some name => ' ' :: header.item ++ [','] ++ (' ' :: name)
  | none => ' ' :: header.item

/-- What stands between the keyword of a loop and its closing braces. -/
def LoopHeader.inner (header : LoopHeader) : Text :=
  ' ' :: (header.iterable ++ [' ', 'a', 's'] ++ header.binding)

/-- The token that starts a loop. -/
def LoopHeader.token (header : LoopHeader) : Text := eachKeyword ++ header.inner ++ closing

/-- The token that starts a conditional. -/
def ifToken (condition : Text) : Text := ifKeyword ++ (' ' :: condition) ++ closing

/-- The token that starts a further arm. -/
def armToken : Option Text → Text
  | some condition => elseKeyword ++ ([' ', 'i', 'f', ' '] ++ condition) ++ closing
  | none => elseKeyword ++ closing

mutual

/-- The template of an outline, given the texts of the leaves. -/
def Outline.text (leafText : α → Text) : Outline α → Text
  | .nil => []
  | .leaf value next => leafText value ++ next.text leafText
  | .loop header body next =>
    header.token ++ body.text leafText ++ eachClosing ++ next.text leafText
  | .conditional condition body arms next =>
    ifToken condition ++ body.text leafText ++ arms.text leafText ++ ifClosing ++ next.text leafText

/-- The text of the further arms, up to the token that closes the conditional. -/
def Arms.text (leafText : α → Text) : Arms α → Text
  | .nil => []
  | .cons condition body rest => armToken condition ++ body.text leafText ++ rest.text leafText

end

/-! ## Well-formed outlines -/

/-- The text holds no braces. -/
def BraceFree (text : Text) : Prop := '{' ∉ text ∧ '}' ∉ text

/-- Markup has no braces, and the text in a pair of braces is neither blank nor taken for a
block. -/
def Insert.WellFormed : Insert → Prop
  | .char c => BraceFree [c]
  | .interpolation expression =>
    expression.isBlankText = false ∧ BraceFree expression ∧ startsWithSigil expression.trim = false
  | .rawMarkup content => content.isBlankText = false ∧ BraceFree content

/-- The text is a name: not empty, and without blanks around it or braces in it. -/
structure IsName (name : Text) : Prop where
  ne_nil : name ≠ []
  trim_eq : name.trim = name
  braceFree : BraceFree name

/-- The word `as` stands nowhere in the text after white space, and before white space or at the
end. -/
def NoBinding (text : Text) : Prop :=
  ∀ before space after, text = before ++ space :: 'a' :: 's' :: after → isSpace space = true →
    ∃ c rest, after = c :: rest ∧ isSpace c = false

/-- The parts of the header can be told apart again. -/
structure LoopHeader.WellFormed (header : LoopHeader) : Prop where
  iterable : IsName header.iterable
  item : IsName header.item
  indexName : ∀ name ∈ header.indexName, IsName name
  no_binding : NoBinding header.iterable
  no_comma : ',' ∉ header.item

mutual

/-- Headers and conditions are well-formed, and the leaves are as `leaf` says. -/
def Outline.WellFormed (leaf : α → Prop) : Outline α → Prop
  | .nil => True
  | .leaf value next => leaf value ∧ next.WellFormed leaf
  | .loop header body next => header.WellFormed ∧ body.WellFormed leaf ∧ next.WellFormed leaf
  | .conditional condition body arms next =>
    BraceFree condition ∧ body.WellFormed leaf ∧ arms.WellFormed leaf ∧ next.WellFormed leaf

/-- The same of further arms. -/
def Arms.WellFormed (leaf : α → Prop) : Arms α → Prop
  | .nil => True
  | .cons condition body rest =>
    (∀ text ∈ condition, BraceFree text) ∧ body.WellFormed leaf ∧ rest.WellFormed leaf

end

mutual

/-- The length of the longest chain of loops nested in one another without a conditional in between,
in an outline that stands in `enclosing` such loops. -/
def Outline.loopChain : Nat → Outline α → Nat
  | enclosing, .nil => enclosing
  | enclosing, .leaf _ next => next.loopChain enclosing
  | enclosing, .loop _ body next => max (body.loopChain (enclosing + 1)) (next.loopChain enclosing)
  | enclosing, .conditional _ body arms next =>
    max (max (body.loopChain 0) arms.loopChain) (next.loopChain enclosing)

/-- The same of further arms. -/
def Arms.loopChain : Arms α → Nat
  | .nil => 0
  | .cons _ body rest => max (body.loopChain 0) rest.loopChain

end

/-- Whether no tag in the text starts like that of a component, with a capital ASCII letter. -/
def isTagless : Text → Bool
  | [] => true
  | c :: rest => !(c == '<' && rest.head?.any Char.isUpper) && isTagless rest

/-! ## The outline without blanks around its parts -/

/-- Drops blank leaves at the front. -/
def Outline.trimStart (blank : α → Bool) : Outline α → Outline α
  | .leaf value next => if blank value then next.trimStart blank else .leaf value next
  | outline => outline

/-- Drops blank leaves at the end. -/
def Outline.trimEnd (blank : α → Bool) : Outline α → Outline α
  | .nil => .nil
  | .leaf value next =>
    match blank value, next.trimEnd blank with
    | true, .nil => .nil
    | _, rest => .leaf value rest
  | .loop header body next => .loop header body (next.trimEnd blank)
  | .conditional condition body arms next => .conditional condition body arms (next.trimEnd blank)

/-- Drops blank leaves at both ends. -/
def Outline.trim (blank : α → Bool) (outline : Outline α) : Outline α :=
  (outline.trimStart blank).trimEnd blank

/-- A leaf that is not blank is kept at the end. -/
theorem Outline.trimEnd_leaf_of_not_blank {blank : α → Bool} {value : α} (h : blank value = false)
    (next : Outline α) :
    (Outline.leaf value next).trimEnd blank = .leaf value (next.trimEnd blank) := by
  rw [trimEnd, h]

/-- A leaf is kept if something after it is. -/
theorem Outline.trimEnd_leaf_of_ne_nil {blank : α → Bool} (value : α) {next : Outline α}
    (h : next.trimEnd blank ≠ .nil) :
    (Outline.leaf value next).trimEnd blank = .leaf value (next.trimEnd blank) := by
  rw [trimEnd]
  split
  · next hnil => exact absurd hnil h
  · rfl

/-- A blank leaf vanishes with what follows it. -/
theorem Outline.trimEnd_leaf_of_blank {blank : α → Bool} {value : α} {next : Outline α}
    (h : blank value = true) (hnext : next.trimEnd blank = .nil) :
    (Outline.leaf value next).trimEnd blank = .nil := by
  rw [trimEnd, h, hnext]

/-- Whether the leaf is a blank character. -/
def Insert.isBlank : Insert → Bool
  | .char c => ComponentFile.isBlank c
  | _ => false

/-- The leaf without blanks around its expression. -/
def Insert.trim : Insert → Insert
  | .char c => .char c
  | .interpolation expression => .interpolation expression.trim
  | .rawMarkup content => .rawMarkup content.trim

mutual

/-- The outline without blanks around expressions, conditions and bodies; `place` puts what a leaf
stands for in front of an outline. -/
def Outline.normal (place : α → Outline Insert → Outline Insert) : Outline α → Outline Insert
  | .nil => .nil
  | .leaf value next => place value (next.normal place)
  | .loop header body next =>
    .loop header ((body.normal place).trim Insert.isBlank) (next.normal place)
  | .conditional condition body arms next =>
    .conditional condition.trim ((body.normal place).trim Insert.isBlank) (arms.normal place)
      (next.normal place)

/-- The same of further arms. -/
def Arms.normal (place : α → Outline Insert → Outline Insert) : Arms α → Arms Insert
  | .nil => .nil
  | .cons condition body rest =>
    .cons (condition.map Text.trim) ((body.normal place).trim Insert.isBlank) (rest.normal place)

end

/-- Puts a leaf in front, without blanks around its expression. -/
def Insert.place (insert : Insert) (next : Outline Insert) : Outline Insert :=
  .leaf insert.trim next

end ComponentFile.Template
