import ComponentFile.Toml.Value

/-!
# A settings file under construction

Entries go to the table of the last header, which joins the file when the next header comes or the
file ends.
-/

namespace ComponentFile.Toml

/-- A file under construction: the tables so far, and the table of the last header. -/
structure Construction where
  /-- The tables whose headers came before the last one. -/
  root : Table
  /-- The keys of the last header; none before the first. -/
  path : List Text
  /-- Whether the last header was that of repeated tables. -/
  repeated : Bool
  /-- The table of the last header. -/
  current : Table

namespace Construction

/-- A file before its first line. -/
def start : Construction where
  root := .root
  path := []
  repeated := false
  current := .root

/-- Puts the table of the last header among the others. -/
def settle (built : Construction) : Option Table :=
  match built.path.getLast? with
  | none => some built.current
  | some key =>
    let join (parent : Table) : Option (Unit × Table) :=
      match built.repeated, parent.get? key with
      | true, some (.tables items) =>
        some ((), parent.set key (.tables (items ++ [built.current.entries])))
      | false, none => some ((), parent.set key (.table .explicit built.current.entries))
      | _, _ => none
    (built.root.descend false join built.path.dropLast).map Prod.snd

/-- Starts the table of a header. A table that was only implied so far keeps its entries. -/
def openTable (built : Construction) (path : List Text) : Option Construction := do
  let root ← built.settle
  let key ← path.getLast?
  let take (parent : Table) : Option (List (Text × Value) × Table) :=
    match parent.get? key with
    | none => some ([], parent)
    | some (.table .implied entries) => some (entries, parent.erase key)
    | some _ => none
  let (entries, root) ← root.descend false take path.dropLast
  return { root, path, repeated := false, current := ⟨.explicit, entries⟩ }

/-- Starts a further table under a repeated header. -/
def openRepeated (built : Construction) (path : List Text) : Option Construction := do
  let root ← built.settle
  let key ← path.getLast?
  let prepare (parent : Table) : Option (Unit × Table) :=
    match parent.get? key with
    | none => some ((), parent.set key (.tables []))
    | some (.tables _) => some ((), parent)
    | some _ => none
  let (_, root) ← root.descend false prepare path.dropLast
  return { root, path, repeated := true, current := .root }

/-- Adds an entry to the table of the last header. -/
def add (built : Construction) (path : List Text) (key : Text) (value : Value) :
    Option Construction := do
  return { built with current := ← built.current.addDotted path key value }

end Construction

end ComponentFile.Toml
