import ComponentFile.Toml.Construction
import ComponentFile.Toml.Number

/-!
# Reading TOML

A file is a sequence of entries and table headers, one to a line. A malformed file has no value at
all.
-/

namespace ComponentFile.Toml

/-- The most levels of arrays and inline tables inside one another. -/
def nestingLimit : Nat := 79

/-- Reads the items of an array after its opening bracket. Blanks, line breaks and comments may
stand around items, and a comma after the last. -/
def arrayItems (value : Reader Value) (text : Text) : Option (List Value × Text) := do
  let text' := dropTrivia false text
  if let some rest := Text.after? [']'] text' then return ([], rest)
  let (item, rest) ← value text'
  let rest := dropTrivia false rest
  match _comma : Text.after? [','] rest with
  | none =>
    let after ← Text.after? [']'] rest
    return ([item], after)
  | some rest =>
    if _shorter : rest.length < text.length then
      let (items, after) ← arrayItems value rest
      return (item :: items, after)
    else none
termination_by text.length

/-- Reads the entries of an inline table after its opening brace, all on one line; `entries` holds
those before. -/
def inlineEntries (value : Reader Value) (entries : List (Text × Value)) (text : Text) :
    Option (List (Text × Value) × Text) := do
  let (path, rest) ← key text
  let rest ← Text.after? ['='] rest
  let (item, rest) ← value (rest.dropWhile isGap)
  let rest := rest.dropWhile isGap
  let name ← path.getLast?
  let entries ← addInline name item path.dropLast entries
  match Text.after? [','] rest with
  | none =>
    let after ← Text.after? ['}'] rest
    return (entries, after)
  | some rest =>
    if _shorter : rest.length < text.length then inlineEntries value entries rest else none
termination_by text.length

/-- Reads an array or an inline table whose items `item` reads. -/
def compound (item : Reader Value) : Reader Value := fun text =>
  match text with
  | '[' :: rest => (arrayItems item rest).map fun (items, rest) => (.array items, rest)
  | '{' :: rest =>
    match Text.after? ['}'] (rest.dropWhile isGap) with
    | some rest => some (.inlineTable false [], rest)
    | none =>
      (inlineEntries item [] rest).map fun (entries, rest) => (.inlineTable false entries, rest)
  | _ => none

/-- Reads a value that holds no other values. -/
def scalar : Reader Value := fun text =>
  match text with
  | '"' :: _ | '\'' :: _ => (string text).map fun (content, rest) => (.string content, rest)
  | 't' :: _ => (Text.after? "true".toList text).map (.boolean true, ·)
  | 'f' :: _ => (Text.after? "false".toList text).map (.boolean false, ·)
  | _ => numberOrMoment text

/-- Reads a value with arrays and inline tables at most `depth` levels deep. -/
def value : Nat → Reader Value
  | 0 => scalar
  | depth + 1 => fun text =>
    match text with
    | '[' :: _ | '{' :: _ => compound (value depth) text
    | _ => scalar text

/-- Reads a table header and the end of its line. -/
def header (built : Construction) : Reader Construction := do
  Reader.exactly ['[']
  let repeated ← Reader.optionally ['[']
  let path ← key
  Reader.exactly (if repeated then [']', ']'] else [']'])
  endLine
  StateT.lift (if repeated then built.openRepeated path else built.openTable path)

/-- Reads an entry and the end of its line. -/
def entry (built : Construction) : Reader Construction := do
  let path ← key
  Reader.exactly ['=']
  skipGap
  let value ← value nestingLimit
  endLine
  let name ← StateT.lift path.getLast?
  StateT.lift (built.add path.dropLast name value)

/-- Reads the lines of a file. -/
def lines (built : Construction) (text : Text) : Option Construction :=
  match dropTrivia false text with
  | [] => some built
  | c :: rest =>
    match (if c = '[' then header built else entry built) (c :: rest) with
    | none => none
    | some (built, rest) => if _shorter : rest.length < text.length then lines built rest else none
termination_by text.length

/-- Reads a file; a byte order mark at its start does not count. -/
def parse? (text : Text) : Option Table := do
  let text := match text with
    | '\ufeff' :: rest => rest
    | text => text
  let built ← lines .start text
  built.settle

end ComponentFile.Toml
