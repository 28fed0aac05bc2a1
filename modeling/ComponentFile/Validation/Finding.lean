import ComponentFile.Diagnostic

/-!
# Findings

The ways in which a file can break a structural rule, and the diagnostic of each.
-/

namespace ComponentFile

/-- A broken rule, with what a reader has to know to mend it. -/
inductive Finding where
  /-- A kind of block occurs `count` times. -/
  | duplicateBlock (kind : BlockKind) (count : Nat)
  /-- The backend does not mention the entry function. -/
  | missingEntry (function : Text)
  /-- The entry function is not declared as it has to be. -/
  | invalidSignature (function : Text)
  /-- Client code does not declare its properties. -/
  | missingProps (marker : Text)
  /-- The interface at the byte offset has no field. -/
  | emptyInterface (offset : Nat)
  /-- A block tag stands inside the template at the byte offset. -/
  | forbiddenTag (tag : Text) (offset : Nat)
  /-- The tag at the byte offset has an event handler. -/
  | forbiddenEvent (event tag : Text) (offset : Nat)
  /-- The conditional with this index has a blank condition. -/
  | emptyCondition (index : Nat)
  /-- An arm of the conditional with this index has a blank condition. -/
  | emptyBranchCondition (index : Nat)
  /-- The loop with this index lacks its iterable or its item name. -/
  | invalidLoop (index : Nat)
  /-- A component names a runtime that is not among the supported ones. -/
  | unsupportedRuntime (tag runtime : Text) (supported : List Text)
  /-- Styling has these numbers of opening and closing braces. -/
  | unmatchedBraces (openers closers : Nat)
  deriving DecidableEq, Repr

namespace Finding

/-- The category of a finding. -/
def kind : Finding → DiagnosticKind
  | .duplicateBlock _ _ => .duplicateSection
  | .missingEntry _ => .missingServerProps
  | .invalidSignature _ => .invalidFunctionSignature
  | .missingProps _ => .missingDefineProps
  | .emptyInterface _ => .emptyInterface
  | .forbiddenTag _ _ => .forbiddenTag
  | .forbiddenEvent _ _ _ => .forbiddenEventAttribute
  | .emptyCondition _ | .emptyBranchCondition _ => .emptyCondition
  | .invalidLoop _ => .invalidEachDirective
  | .unsupportedRuntime _ _ _ => .invalidTargetRuntime
  | .unmatchedBraces _ _ => .unmatchedBraces

/-- How serious a finding is. -/
def severity : Finding → Severity
  | .missingEntry _ | .emptyInterface _ => .warning
  | .missingProps _ => .info
  | _ => .error

/-- The kind of block a finding is about. -/
def blockKind : Finding → BlockKind
  | .duplicateBlock kind _ => kind
  | .missingEntry _ | .invalidSignature _ => .backend
  | .missingProps _ | .emptyInterface _ => .uiLogic
  | .forbiddenTag _ _ | .forbiddenEvent _ _ _ | .emptyCondition _ | .emptyBranchCondition _
  | .invalidLoop _ | .unsupportedRuntime _ _ _ => .template
  | .unmatchedBraces _ _ => .style

/-- Where a finding applies, if it is about one place. -/
def position : Finding → Option Position
  | .emptyInterface offset | .forbiddenTag _ offset | .forbiddenEvent _ _ offset =>
    some (.byte offset)
  | _ => none

/-- The wording of a finding. -/
def message : Finding → String
  | .duplicateBlock kind count =>
    let name := kind.name
    s!"Each block may appear only once, found {count} {name} sections"
  | .missingEntry function =>
    let name := String.ofList function
    s!"Backend section should define a {name} function"
  | .invalidSignature function =>
    let name := String.ofList function
    s!"{name} must be declared as `async fn {name}(…) -> Response`"
  | .missingProps marker =>
    let name := String.ofList marker
    s!"Script section should declare its props with {name}"
  | .emptyInterface _ => "Interface declares no fields"
  | .forbiddenTag tag _ =>
    let name := String.ofList tag
    s!"<{name}> is not allowed inside the template"
  | .forbiddenEvent event tag _ =>
    let event := String.ofList event
    let tag := String.ofList tag
    s!"Event attribute {event} is not allowed on <{tag}>"
  | .emptyCondition index => s!"if directive {index} has an empty condition"
  | .emptyBranchCondition index => s!"else-if branch of directive {index} has an empty condition"
  | .invalidLoop index => s!"each directive {index} needs both an iterable and an item name"
  | .unsupportedRuntime tag runtime supported =>
    let tag := String.ofList tag
    let runtime := String.ofList runtime
    let names := String.ofList (Text.join [',', ' '] supported)
    s!"<{tag}> targets unsupported runtime {runtime}; supported: {names}"
  | .unmatchedBraces openers closers =>
    s!"Style has {openers} opening and {closers} closing braces"

/-- The diagnostic of a finding. -/
def diagnostic (finding : Finding) : Diagnostic where
  kind := finding.kind
  severity := finding.severity
  message := finding.message
  position := finding.position
  block := some finding.blockKind

end Finding

end ComponentFile
