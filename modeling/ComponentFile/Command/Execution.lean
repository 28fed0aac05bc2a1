import ComponentFile.Command.Arguments
import ComponentFile.Discovery.Search
import ComponentFile.Document.Encoding
import ComponentFile.Document.Reading
import ComponentFile.Document.Report
import ComponentFile.SettingsFile
import ComponentFile.Text.Quoted

/-!
# Running the command

The command reads its settings, finds the files it was asked for, and prints something about each.
What it does depends on its arguments and on what paths lead to, and on nothing else.
-/

namespace ComponentFile.Command

open Discovery (FileTree SourceFile MissingPath findDocuments)

/-- What a run of the command leaves behind. -/
structure Outcome where
  /-- The exit code. -/
  code : Nat := 0
  /-- The text on standard output. -/
  output : String := ""
  /-- The text on standard error. -/
  messages : String := ""
  deriving DecidableEq, Repr

namespace Outcome

/-- One outcome after another. The later exit code counts. -/
def andThen (first second : Outcome) : Outcome where
  code := second.code
  output := first.output ++ second.output
  messages := first.messages ++ second.messages

/-- A line on standard output. -/
def line (text : String) : Outcome := { output := text ++ "\n" }

/-- A line on standard error. -/
def note (text : String) : Outcome := { messages := text ++ "\n" }

end Outcome

/-- What paths lead to. -/
abbrev Lookup := Text → Option FileTree

/-- The settings in the working directory; the defaults when they are missing or malformed. -/
def loadSettings (lookup : Lookup) : Settings :=
  let settings? := do
    match lookup Settings.fileName with
    | some (.file content) =>
      let text ← String.fromUTF8? content
      Settings.ofToml? text.toList
    | _ => none
  settings?.getD {}

/-- Analyzers that find nothing to report and make no trees. -/
def quietAnalyzer (_ : BlockKind) (_ : Text) : Id Analysis := .ok []

/-- The JSON value printed for a file. -/
def fileJson {Tree : Type} (path : Text) (document : Document Tree) : Json :=
  .ofFields [("path", .text path), ("document", document.toJson)]

/-- What is printed about a document. -/
def describe {Tree : Type} (mode : OutputMode) (path : Text) (document : Document Tree) : Outcome :=
  let name := String.ofList path
  match mode with
  | .json => .line (fileJson path document).pretty
  | .errorsOnly =>
    if document.diagnostics.isEmpty then {}
    else
      (Outcome.line (name ++ ":")).andThen
        (.line (Document.formatDiagnostics document.diagnostics))
  | .report => (Outcome.line name).andThen (.line document.report)

/-- Reads a file and prints something about it. A file that is not text is passed over with a
note. -/
def processFile (settings : Settings) (mode : OutputMode) (file : SourceFile) : Outcome :=
  match String.fromUTF8? file.content with
  | none =>
    let name := String.ofList file.path
    .note s!"Skipping {name}: stream did not contain valid UTF-8"
  | some text => describe mode file.path (Document.read settings quietAnalyzer text.toList).run

/-- The error for a path that leads nowhere. -/
def missingPath (missing : MissingPath) : Outcome :=
  let quoted := String.ofList missing.message.quoted
  { code := 1, messages := "Error: Custom \x7b kind: NotFound, error: " ++ quoted ++ " \x7d\n" }

/-- Does what was asked for. -/
def perform (lookup : Lookup) (request : Request) : Outcome :=
  let loaded := loadSettings lookup
  let settings :=
    if request.extensions.isEmpty then loaded
    else { loaded with fileExtensions := request.extensions }
  match findDocuments lookup request.paths settings.fileExtensions with
  | .error missing => missingPath missing
  | .ok [] => .note "No matching files found"
  | .ok files => (files.map (processFile settings request.mode)).foldl Outcome.andThen {}

/-- Runs the command. -/
def run (lookup : Lookup) (arguments : List Text) : Outcome :=
  match Request.parse arguments with
  | .error error => { code := 2, messages := "error: " ++ error.message ++ "\n" }
  | .ok request => perform lookup request

/-- The paths that a run looks up. -/
def lookedUp (arguments : List Text) : List Text :=
  match Request.parse arguments with
  | .error _ => []
  | .ok request =>
    Settings.fileName :: if request.paths.isEmpty then [['.']] else request.paths

end ComponentFile.Command
