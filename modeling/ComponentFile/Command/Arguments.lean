import ComponentFile.Text.Basic

/-!
# Command line arguments

What the command is asked to do, as read from its arguments.
-/

namespace ComponentFile.Command

/-- What is printed for each file. -/
inductive OutputMode where
  /-- A report for a human reader. -/
  | report
  /-- The document as JSON. -/
  | json
  /-- The diagnostics only. -/
  | errorsOnly
  deriving DecidableEq, Repr

/-- What the command is asked to do. -/
structure Request where
  /-- The files and directories to read. -/
  paths : List Text
  /-- The endings of files to look for, in place of those of the settings. -/
  extensions : List Text
  /-- What is printed for each file. -/
  mode : OutputMode
  deriving DecidableEq, Repr

/-- Why arguments cannot be read. -/
inductive UsageError where
  /-- There is no such option. -/
  | unknownOption (argument : Text)
  /-- The option needs a value. -/
  | missingValue
  /-- The option takes no value. -/
  | unexpectedValue (argument : Text)
  /-- The option may be given once only. -/
  | repeatedFlag (name : String)
  /-- Only one of the two kinds of output can be asked for. -/
  | conflictingModes
  /-- A path is empty. -/
  | emptyPath
  deriving DecidableEq, Repr

/-- The wording of a usage error. -/
def UsageError.message : UsageError → String
  | .unknownOption argument =>
    let name := String.ofList argument
    s!"unexpected argument '{name}' found"
  | .missingValue => "a value is required for '--ext <EXT>' but none was supplied"
  | .unexpectedValue argument =>
    let name := String.ofList argument
    s!"unexpected value in '{name}'"
  | .repeatedFlag name => s!"the argument '--{name}' cannot be used multiple times"
  | .conflictingModes => "the argument '--errors-only' cannot be used with '--json'"
  | .emptyPath => "a value is required for '[PATH]...' but none was supplied"

/-- The arguments read so far. -/
structure Progress where
  paths : List Text := []
  extensions : List Text := []
  json : Bool := false
  errorsOnly : Bool := false

/-- The meaning of a single argument. -/
inductive Argument where
  /-- From here on everything is a path. -/
  | onlyPaths
  /-- An ending, with its value unless that is the next argument. -/
  | extension (value : Option Text)
  /-- A named option without a value. -/
  | flag (name : Text)
  /-- A path. -/
  | path (path : Text)
  deriving DecidableEq, Repr

/-- Whether an argument looks like an option. A lone dash does not. -/
def looksLikeOption : Text → Bool
  | '-' :: _ :: _ => true
  | _ => false

/-- Reads one argument. -/
def Argument.parse (argument : Text) : Except UsageError Argument :=
  match argument with
  | ['-', '-'] => .ok .onlyPaths
  | '-' :: '-' :: option =>
    match Text.cut? ['='] option with
    | some (name, value) =>
      if name = "ext".toList then .ok (.extension (some value))
      else if name = "json".toList ∨ name = "errors-only".toList then
        .error (.unexpectedValue argument)
      else .error (.unknownOption argument)
    | none => if option = "ext".toList then .ok (.extension none) else .ok (.flag option)
  | ['-', 'e'] => .ok (.extension none)
  | '-' :: 'e' :: '=' :: value => .ok (.extension (some value))
  | '-' :: 'e' :: value => .ok (.extension (some value))
  | '-' :: _ :: _ => .error (.unknownOption argument)
  | [] => .error .emptyPath
  | named => .ok (.path named)

/-- Takes a named option into account. -/
def Progress.addFlag (progress : Progress) (name : Text) : Except UsageError Progress :=
  if name = "json".toList then
    if progress.json then .error (.repeatedFlag "json") else .ok { progress with json := true }
  else if name = "errors-only".toList then
    if progress.errorsOnly then .error (.repeatedFlag "errors-only")
    else .ok { progress with errorsOnly := true }
  else .error (.unknownOption ('-' :: '-' :: name))

/-- Takes paths into account. -/
def Progress.addPaths (progress : Progress) (paths : List Text) : Except UsageError Progress :=
  if paths.any List.isEmpty then .error .emptyPath
  else .ok { progress with paths := progress.paths ++ paths }

/-- Reads arguments from left to right; `pending` says that the next one is the value of an
option. -/
def readFrom (pending : Bool) (progress : Progress) : List Text → Except UsageError Progress
  | [] => if pending then .error .missingValue else .ok progress
  | argument :: rest =>
    if pending then
      if looksLikeOption argument then .error .missingValue
      else readFrom false { progress with extensions := progress.extensions ++ [argument] } rest
    else do
      match ← Argument.parse argument with
      | .onlyPaths => progress.addPaths rest
      | .extension none => readFrom true progress rest
      | .extension (some value) =>
        readFrom false { progress with extensions := progress.extensions ++ [value] } rest
      | .flag name => readFrom false (← progress.addFlag name) rest
      | .path path => readFrom false (← progress.addPaths [path]) rest

/-- What the arguments ask for. -/
def Request.parse (arguments : List Text) : Except UsageError Request := do
  let progress ← readFrom false {} arguments
  let mode ← match progress.json, progress.errorsOnly with
    | true, true => .error .conflictingModes
    | true, false => .ok .json
    | false, true => .ok .errorsOnly
    | false, false => .ok .report
  return { paths := progress.paths, extensions := progress.extensions, mode }

end ComponentFile.Command
