import ComponentFile.Template.Header
import ComponentFile.Template.Registry

/-!
# Conditionals

A conditional runs from its opening token to its closing token, with branch tokens between its arms.
One left-to-right reading follows the outermost open conditional and counts those open inside it. A
branch token belongs to the innermost open conditional, so only one that stands in no nested
conditional divides the outermost, and only the token that closes the outermost completes an item.
Nested conditionals stay part of the bodies. Branch and closing tokens outside every conditional are
plain text, and so is everything from a conditional on that is never closed.
-/

namespace ComponentFile.Template

/-- The token that ends a conditional. -/
def ifClosing : Text := ['{', '{', '/', 'i', 'f', '}', '}']

/-- The keyword that starts a conditional. -/
def ifKeyword : Text := ['{', '{', '@', 'i', 'f']

/-- The keyword of an arm with a condition, written as one word. -/
def elseIfKeyword : Text := ['{', '{', ':', 'e', 'l', 's', 'e', 'i', 'f']

/-- The keyword of a further arm. -/
def elseKeyword : Text := ['{', '{', ':', 'e', 'l', 's', 'e']

/-- The tokens of conditionals. -/
inductive ConditionalToken where
  /-- Starts a conditional. -/
  | opened (condition : Text)
  /-- Starts a further arm, with a condition or without. -/
  | branch (condition : Option Text)
  /-- Ends a conditional. -/
  | closed
  deriving DecidableEq, Repr

/-- Reads the header of a further arm: blank for an arm without a condition, and otherwise the word
`if` and the condition. -/
def branchOf? (inner : Text) : Option ConditionalToken :=
  if inner.isBlankText then some (.branch none)
  else
    match Text.after? ['i', 'f'] inner.trimStart with
    | none => none
    | some [] => some (.branch (some []))
    | some (c :: condition) =>
      if isBlank c then some (.branch (some (Text.trim (c :: condition)))) else none

/-- Reads a token of a conditional at the start of a text. -/
def conditionalToken : Recogniser ConditionalToken := fun text =>
  if Text.startsWith ifClosing text then some (.closed, ifClosing.length)
  else
    match header? ifKeyword text with
    | some (inner, _) => some (.opened inner.trim, headerLength ifKeyword inner)
    | none =>
    match header? elseIfKeyword text with
    | some (inner, _) => some (.branch (some inner.trim), headerLength elseIfKeyword inner)
    | none =>
    match header? elseKeyword text with
    | some (inner, _) => (branchOf? inner).map (·, headerLength elseKeyword inner)
    | none => none

/-- A further arm: its token, its condition if it has one, and the text up to the next token. -/
structure Arm where
  token : Text
  condition : Option Text
  body : Text
  deriving DecidableEq, Repr

/-- A complete conditional: its opening token and condition, the text of its leading arm, and its
further arms. -/
structure Conditional where
  token : Text
  condition : Text
  body : Text
  arms : List Arm
  deriving DecidableEq, Repr

/-- A conditional still open. Bodies and the list of arms are kept in reverse. -/
structure Frame where
  token : Text
  condition : Text
  body : Text
  arms : List Arm
  deriving DecidableEq, Repr

namespace Frame

/-- Adds text, given in reverse, to the body of the current arm. -/
def extend (frame : Frame) (reversed : Text) : Frame :=
  match frame.arms with
  | [] => { frame with body := reversed ++ frame.body }
  | arm :: arms => { frame with arms := { arm with body := reversed ++ arm.body } :: arms }

/-- Starts a further arm. -/
def addArm (frame : Frame) (token : Text) (condition : Option Text) : Frame :=
  { frame with arms := { token, condition, body := [] } :: frame.arms }

/-- The conditional that closing the frame completes. -/
def complete (frame : Frame) : Conditional where
  token := frame.token
  condition := frame.condition
  body := frame.body.reverse
  arms := frame.arms.reverse.map fun arm => { arm with body := arm.body.reverse }

/-- The text read since the frame was opened. -/
def source (frame : Frame) : Text :=
  frame.token ++ frame.body.reverse ++
    frame.arms.reverse.flatMap fun arm => arm.token ++ arm.body.reverse

end Frame

/-- Reads a text into outermost conditionals. `opened` is the outermost conditional still open and
the number of conditionals open inside it; `skip` characters still belong to the token before. -/
def conditionalsFrom : Option (Frame × Nat) → Nat → Text → List (Segment Conditional)
  | none, _, [] => []
  | some (frame, _), _, [] => Segment.plain frame.source
  | opened, skip + 1, _ :: rest => conditionalsFrom opened skip rest
  | none, 0, c :: rest =>
    match conditionalToken (c :: rest) with
    | some (.opened condition, length) =>
      let frame : Frame := { token := (c :: rest).take length, condition, body := [], arms := [] }
      conditionalsFrom (some (frame, 0)) (length - 1) rest
    | _ => .char c :: conditionalsFrom none 0 rest
  | some (frame, nested), 0, c :: rest =>
    match conditionalToken (c :: rest), nested with
    | none, nested => conditionalsFrom (some (frame.extend [c], nested)) 0 rest
    | some (.branch condition, length), 0 =>
      let token := (c :: rest).take length
      conditionalsFrom (some (frame.addArm token condition, 0)) (length - 1) rest
    | some (.closed, length), 0 =>
      .item (frame.source ++ (c :: rest).take length) frame.complete ::
        conditionalsFrom none (length - 1) rest
    | some (token, length), nested =>
      let frame := frame.extend ((c :: rest).take length).reverse
      let nested := match token with
        | .opened _ => nested + 1
        | .branch _ => nested
        | .closed => nested - 1
      conditionalsFrom (some (frame, nested)) (length - 1) rest

/-- The outermost conditionals of a text. -/
def conditionals (text : Text) : List (Segment Conditional) := conditionalsFrom none 0 text

/-- The branch of an arm, with its body processed. -/
def branchOf (process : Pass) (kind : BranchKind) (body : Text) (registry : Registry) :
    Branch × Registry :=
  let (processedBody, registry) := process body.trim registry
  ({ kind, body := body.trim, processedBody }, registry)

/-- The branches of further arms, in order. -/
def branchesOf (process : Pass) : List Arm → Registry → List Branch × Registry
  | [], registry => ([], registry)
  | arm :: arms, registry =>
    let kind := match arm.condition with
      | some condition => .elseIf condition
      | none => .otherwise
    let (branch, registry) := branchOf process kind arm.body registry
    let (branches, registry) := branchesOf process arms registry
    (branch :: branches, registry)

/-- The directive of a conditional; the directives of its bodies are added first. -/
def conditionalKind (process : Pass) (conditional : Conditional) (registry : Registry) :
    DirectiveKind × Registry :=
  let (first, registry) := branchOf process .primary conditional.body registry
  let (others, registry) := branchesOf process conditional.arms registry
  (.conditional conditional.condition (first :: others), registry)

/-- One pass over the outermost conditionals of a text. -/
def replaceConditionals (process : Pass) : Pass := fun text registry =>
  registry.replace (conditionalKind process) (conditionals text)

end ComponentFile.Template
