import ComponentFile.Settings
import ComponentFile.Toml.Reader

/-!
# Settings files

A settings file names some of the settings; the others keep their defaults. Names that are no
settings are passed over, but a value of the wrong kind makes the whole file unusable.
-/

namespace ComponentFile.Settings

/-- The name of the settings file in the working directory. -/
def fileName : Text := "rsx.toml".toList

/-- The text of a string value. -/
def text? : Toml.Value → Option Text
  | .string content => some content
  | _ => none

/-- The texts of an array of string values. -/
def texts? : Toml.Value → Option (List Text)
  | .array items => items.mapM text?
  | _ => none

/-- Every count is below this bound. -/
def countBound : Nat := Nat.pow 2 64

/-- The count that a number stands for: a fraction is cut off, and a negative number is none. -/
def count? : Toml.Value → Option Nat
  | .integer value => if 0 ≤ value then some value.toNat else none
  | .float (.number value) => do
    let count ← value.magnitude.floor?
    let isZero := value.magnitude = .finite 0 Magnitude.leastExponent
    if (value.negative && !isZero) || countBound ≤ count then none else some count
  | _ => none

/-- The value of a setting: the default when it is not named. -/
def setting? {α : Type} (table : Toml.Table) (name : String) (read : Toml.Value → Option α)
    (default : α) : Option α :=
  match table.get? name.toList with
  | none => some default
  | some value => read value

/-- The settings that a table names. -/
def ofTable? (table : Toml.Table) : Option Settings := do
  let defaults : Settings := {}
  let fileExtensions ← setting? table "file_extensions" texts? defaults.fileExtensions
  let supportedRuntimes ← setting? table "supported_runtimes" texts? defaults.supportedRuntimes
  let runtimeAttribute ← setting? table "runtime_attribute" text? defaults.runtimeAttribute
  let entryFunction ← setting? table "entry_function" text? defaults.entryFunction
  let propsMarker ← setting? table "props_marker" text? defaults.propsMarker
  let passLimit ← setting? table "max_preprocess_iterations" count? defaults.passLimit
  return { fileExtensions, supportedRuntimes, runtimeAttribute, entryFunction,
           propsMarker, passLimit }

/-- The settings of a file; none when the file is malformed. -/
def ofToml? (text : Text) : Option Settings := Toml.parse? text >>= ofTable?

end ComponentFile.Settings
