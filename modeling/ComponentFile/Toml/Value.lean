import ComponentFile.Numeral.Binary64
import ComponentFile.Text.Basic

/-!
# TOML values

The values of a settings file in the TOML format, and the tables that its headers and dotted keys
build. A table remembers how it came about, because that decides what may still be added to it: a
table made by its own header is complete, one implied by the header of a table below it can still
get a header, and one made by dotted keys can be extended by dotted keys only.
-/

namespace ComponentFile.Toml

/-- How a table came about. -/
inductive Definition where
  /-- By a header of its own, or as the whole file. -/
  | explicit
  /-- By the header of a table below it. -/
  | implied
  /-- By dotted keys. -/
  | dotted
  deriving DecidableEq, Repr

/-- A floating-point number. -/
inductive TomlFloat where
  | number (value : Binary64)
  | notANumber
  deriving DecidableEq, Repr

/-- A value of a settings file. Dates and times are told apart from all else but not looked into. -/
inductive Value where
  | string (content : Text)
  | integer (value : Int)
  | float (value : TomlFloat)
  | boolean (value : Bool)
  | moment
  | array (items : List Value)
  /-- A table written in braces, or made by dotted keys inside one. -/
  | inlineTable (dotted : Bool) (entries : List (Text × Value))
  | table (definition : Definition) (entries : List (Text × Value))
  /-- The tables under a repeated header. -/
  | tables (items : List (List (Text × Value)))
  deriving Repr

/-- The entries of a table under construction. -/
structure Table where
  definition : Definition
  entries : List (Text × Value)
  deriving Repr

namespace Table

/-- The whole file before its first entry. -/
def root : Table := ⟨.explicit, []⟩

/-- The value under a key. -/
def get? (table : Table) (key : Text) : Option Value := table.entries.lookup key

/-- Gives a key its value, in place of an earlier one. -/
def set (table : Table) (key : Text) (value : Value) : Table :=
  if (table.get? key).isSome then
    { table with entries := table.entries.map fun (other, old) =>
        if other = key then (other, value) else (other, old) }
  else { table with entries := table.entries ++ [(key, value)] }

/-- Takes a key out. -/
def erase (table : Table) (key : Text) : Table :=
  { table with entries := table.entries.filter fun entry => entry.1 != key }

/-- Edits the table that the keys lead to, and gives what the edit gives. Tables on the way are made
as needed; a dotted key may not lead through a complete table, and no key through any other value.
Of repeated tables the last is meant. -/
def descend {α : Type} (dotted : Bool) (edit : Table → Option (α × Table)) :
    List Text → Table → Option (α × Table)
  | [], table => edit table
  | key :: rest, table =>
    match table.get? key with
    | none => do
      let (result, child) ← descend dotted edit rest ⟨if dotted then .dotted else .implied, []⟩
      return (result, table.set key (.table child.definition child.entries))
    | some (.table definition entries) =>
      if dotted && definition = .explicit then none
      else do
        let (result, child) ← descend dotted edit rest ⟨definition, entries⟩
        return (result, table.set key (.table child.definition child.entries))
    | some (.tables items) =>
      match items.getLast? with
      | none => none
      | some last => do
        let (result, child) ← descend dotted edit rest ⟨.explicit, last⟩
        return (result, table.set key (.tables (items.dropLast ++ [child.entries])))
    | some _ => none

/-- Adds an entry that no other entry has the key of. Dotted keys add to tables made by dotted keys,
and plain keys to all others. -/
def addEntry (viaDots : Bool) (key : Text) (value : Value) (table : Table) :
    Option (Unit × Table) :=
  if (table.definition == .dotted) != viaDots || (table.get? key).isSome then none
  else some ((), table.set key value)

/-- Adds an entry under a key with the given keys in front of it. -/
def addDotted (path : List Text) (key : Text) (value : Value) (table : Table) : Option Table :=
  (descend true (addEntry (!path.isEmpty) key value) path table).map Prod.snd

end Table

/-- Adds an entry under a dotted key to a table in braces. Keys may lead through tables that dotted
keys made, and no others. -/
def addInline (key : Text) (value : Value) :
    List Text → List (Text × Value) → Option (List (Text × Value))
  | [], entries => if (entries.lookup key).isSome then none else some (entries ++ [(key, value)])
  | step :: rest, entries =>
    match entries.lookup step with
    | none => do
      let child ← addInline key value rest []
      return entries ++ [(step, .inlineTable true child)]
    | some (.inlineTable true child) => do
      let child ← addInline key value rest child
      return entries.map fun (other, old) =>
        if other = step then (other, .inlineTable true child) else (other, old)
    | some _ => none

end ComponentFile.Toml
