/-!
# Dictionaries

A dictionary lists names with their values in increasing order of the names, each name once. A later
value for a name replaces the earlier one.
-/

namespace ComponentFile

/-- Names with their values, in increasing order of the names. -/
abbrev Dictionary (κ β : Type) := List (κ × β)

namespace Dictionary

variable {κ β : Type} [LT κ] [DecidableLT κ]

/-- Gives `name` the value `value`, replacing an earlier one. -/
def insert (name : κ) (value : β) : Dictionary κ β → Dictionary κ β
  | [] => [(name, value)]
  | (other, old) :: rest =>
    if name < other then (name, value) :: (other, old) :: rest
    else if other < name then (other, old) :: insert name value rest
    else (name, value) :: rest

/-- The value of `name`. -/
def get? (name : κ) : Dictionary κ β → Option β
  | [] => none
  | (other, value) :: rest =>
    if name < other ∨ other < name then get? name rest else some value

/-- The dictionary of a list of names with values; of two values for a name the later one counts. -/
def ofList (entries : List (κ × β)) : Dictionary κ β :=
  entries.foldl (fun dictionary (name, value) => insert name value dictionary) []

/-- How often each name occurs in a list. -/
def tally (names : List κ) : Dictionary κ Nat :=
  names.foldl (fun counts name => insert name ((get? name counts).getD 0 + 1) counts) []

end Dictionary

end ComponentFile
