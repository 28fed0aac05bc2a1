import ComponentFile.Block.Basic

/-!
# Diagnostics

What is reported about a component file. Diagnostics come from structural rules, from the analyzers
of the blocks, and from analyzers that fail; all have one shape.
-/

namespace ComponentFile

/-- How serious a diagnostic is. -/
inductive Severity where
  /-- The file is malformed. -/
  | error
  /-- A likely mistake. -/
  | warning
  /-- A suggestion. -/
  | info
  deriving DecidableEq, Repr

namespace Severity

/-- Every severity, the most serious first. -/
def all : List Severity := [.error, .warning, .info]

/-- The name of a severity. -/
def name : Severity → String
  | .error => "error"
  | .warning => "warning"
  | .info => "info"

end Severity

/-- The categories of diagnostics. -/
inductive DiagnosticKind where
  /-- A kind of block occurs more than once. -/
  | duplicateSection
  /-- A block tag stands inside the template. -/
  | forbiddenTag
  /-- A standard tag has an inline event handler. -/
  | forbiddenEventAttribute
  /-- The backend lacks the entry function. -/
  | missingServerProps
  /-- The entry function has the wrong shape. -/
  | invalidFunctionSignature
  /-- Client code never declares its properties. -/
  | missingDefineProps
  /-- An interface has no field. -/
  | emptyInterface
  /-- Styling has unequal numbers of opening and closing braces. -/
  | unmatchedBraces
  /-- A conditional or one of its arms has a blank condition. -/
  | emptyCondition
  /-- A loop lacks its iterable or its item name. -/
  | invalidEachDirective
  /-- A component names an unsupported runtime. -/
  | invalidTargetRuntime
  /-- An analyzer found malformed text. -/
  | syntaxError
  /-- An analyzer found something missing. -/
  | missingNode
  /-- The analyzer of the backend failed. -/
  | backendParseError
  /-- The analyzer of client code failed. -/
  | uiLogicParseError
  /-- The analyzer of the template failed. -/
  | templateParseError
  /-- The analyzer of styling failed. -/
  | styleParseError
  deriving DecidableEq, Repr

namespace DiagnosticKind

/-- Every category. -/
def all : List DiagnosticKind :=
  [.duplicateSection, .forbiddenTag, .forbiddenEventAttribute, .missingServerProps,
   .invalidFunctionSignature, .missingDefineProps, .emptyInterface, .unmatchedBraces,
   .emptyCondition, .invalidEachDirective, .invalidTargetRuntime, .syntaxError, .missingNode,
   .backendParseError, .uiLogicParseError, .templateParseError, .styleParseError]

/-- The name of a category. -/
def name : DiagnosticKind → String
  | .duplicateSection => "duplicate_section"
  | .forbiddenTag => "forbidden_tag"
  | .forbiddenEventAttribute => "forbidden_event_attribute"
  | .missingServerProps => "missing_server_props"
  | .invalidFunctionSignature => "invalid_function_signature"
  | .missingDefineProps => "missing_define_props"
  | .emptyInterface => "empty_interface"
  | .unmatchedBraces => "unmatched_braces"
  | .emptyCondition => "empty_condition"
  | .invalidEachDirective => "invalid_each_directive"
  | .invalidTargetRuntime => "invalid_target_runtime"
  | .syntaxError => "syntax_error"
  | .missingNode => "missing_node"
  | .backendParseError => "backend_parse_error"
  | .uiLogicParseError => "ui_logic_parse_error"
  | .templateParseError => "template_parse_error"
  | .styleParseError => "style_parse_error"

/-- The category of the failure of the analyzer of a kind of block. -/
def analyzerFailure : BlockKind → DiagnosticKind
  | .backend => .backendParseError
  | .uiLogic => .uiLogicParseError
  | .template => .templateParseError
  | .style => .styleParseError

end DiagnosticKind

/-- A place in the text of a block, counted from zero; columns count bytes. -/
structure Point where
  row : Nat
  column : Nat
  deriving DecidableEq, Repr

/-- Where a diagnostic applies. -/
inductive Position where
  /-- A byte offset in the whole file. -/
  | byte (offset : Nat)
  /-- From one point in a block up to another. -/
  | span (start stop : Point)
  deriving DecidableEq, Repr

/-- A position for a reader; rows and columns count from one. -/
def Position.describe : Position → String
  | .byte offset => s!"Byte {offset}"
  | .span start _ =>
    let row := start.row + 1
    let column := start.column + 1
    s!"Line {row}, Column {column}"

/-- One thing reported about a file. -/
structure Diagnostic where
  /-- The category. -/
  kind : DiagnosticKind
  /-- How serious it is. -/
  severity : Severity
  /-- The wording for a reader. -/
  message : String
  /-- Where it applies, when that is known. -/
  position : Option Position := none
  /-- The kind of block it is about, when it is about one. -/
  block : Option BlockKind := none
  deriving DecidableEq, Repr

end ComponentFile
