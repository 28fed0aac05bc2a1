import ComponentFile.Text.Basic

/-!
# Blocks of a component file

A component file has up to four blocks: server code between fences, client code in a script element,
markup in a template element and styling in a style element. A block is known by its inner text, the
byte span of the whole block, and how often blocks of its kind occur in the file.
-/

namespace ComponentFile

/-- The kinds of blocks. -/
inductive BlockKind where
  /-- Server code between fences. -/
  | backend
  /-- Client code in a script element. -/
  | uiLogic
  /-- Markup with directives in a template element. -/
  | template
  /-- Styling in a style element. -/
  | style
  deriving DecidableEq, Repr

namespace BlockKind

/-- Every kind, in the order in which blocks are handled. -/
def all : List BlockKind := [.backend, .uiLogic, .template, .style]

/-- The name of a kind in diagnostics and counts. -/
def name : BlockKind → String
  | .backend => "backend"
  | .uiLogic => "ui_logic"
  | .template => "template"
  | .style => "style"

end BlockKind

/-- One place where a block occurs. -/
structure Occurrence where
  /-- The inner text of the block. -/
  content : Text
  /-- The byte offset of the opening delimiter. -/
  start : Nat
  /-- The byte offset just past the closing delimiter. -/
  stop : Nat
  deriving DecidableEq, Repr

/-- The block of one kind: its first occurrence, and how often the kind occurs. -/
structure Block extends Occurrence where
  /-- How often blocks of this kind occur in the file. -/
  occurrences : Nat
  deriving DecidableEq, Repr

/-- The block that a list of occurrences makes up. -/
def Block.ofOccurrences? : List Occurrence → Option Block
  | [] => none
  | first :: rest => some { first with occurrences := rest.length + 1 }

end ComponentFile
