import ComponentFile.Text.Basic

/-!
# Paths

A path is text with slashes between its components. Two paths are compared component by component:
repeated slashes and dots inside a path do not count, while a leading dot does. Names compare by
their code points, after the root, the leading dot and steps to a parent.
-/

namespace ComponentFile.Discovery

/-- The components of a path. -/
inductive Component where
  /-- The slash at the start of an absolute path. -/
  | root
  /-- The dot at the start of a relative path. -/
  | current
  /-- A step to the parent. -/
  | parent
  /-- A step to the entry of the given name. -/
  | entry (name : Text)
  deriving DecidableEq, Repr

/-- Components in order are components with increasing keys. -/
def Component.key : Component → List Nat
  | .root => [0]
  | .current => [1]
  | .parent => [2]
  | .entry name => 3 :: name.map Char.toNat

/-- The component of one part between slashes; empty parts and dots have none. -/
def component? (part : Text) : Option Component :=
  if part = [] ∨ part = ['.'] then none
  else if part = ['.', '.'] then some .parent
  else some (.entry part)

/-- The components of a path. -/
def components (path : Text) : List Component :=
  let parts := Text.pieces ['/'] path
  let start := match path, parts with
    | '/' :: _, _ => [.root]
    | _, ['.'] :: _ => [.current]
    | _, _ => []
  start ++ parts.filterMap component?

/-- The key by which paths are ordered; paths with equal components have equal keys. -/
def pathKey (path : Text) : List (List Nat) := (components path).map Component.key

/-- The path of an entry of a directory. -/
def entryPath (directory name : Text) : Text :=
  if directory.getLast? = some '/' then directory ++ name else directory ++ '/' :: name

/-- The ending of a file name after its last dot. A name whose only dot is its first character has
no ending. -/
def extension? (name : Text) : Option Text :=
  match Text.cutLast? ['.'] name with
  | some ([], _) | none => none
  | some (_, ending) => if name = ['.', '.'] then none else some ending

/-- Whether the name has one of the given endings. Dots at the front of an ending do not count. -/
def hasExtension (extensions : List Text) (name : Text) : Bool :=
  match extension? name with
  | none => false
  | some ending => extensions.any fun wanted => wanted.dropWhile (· == '.') = ending

end ComponentFile.Discovery
