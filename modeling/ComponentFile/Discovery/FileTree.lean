import ComponentFile.Discovery.Path

/-!
# File trees

A file system without links: a file holds bytes, and a directory holds entries by name. A path leads
through a tree step by step; every step but the last has to reach a directory.
-/

namespace ComponentFile.Discovery

/-- A file or directory. -/
inductive FileTree where
  | file (content : ByteArray)
  | directory (entries : List (Text × FileTree))

namespace FileTree

/-- The directory without entries. -/
def empty : FileTree := .directory []

/-- The entries of a directory; a file has none. -/
def entries : FileTree → List (Text × FileTree)
  | .file _ => []
  | .directory entries => entries

/-- The entry of a directory. -/
def entry? (tree : FileTree) (name : Text) : Option FileTree := tree.entries.lookup name

/-- Changes what the names lead to; directories on the way are made. -/
def alter (change : Option FileTree → FileTree) : List Text → Option FileTree → FileTree
  | [], tree => change tree
  | name :: rest, tree =>
    let tree := tree.getD empty
    let others := tree.entries.filter fun entry => entry.1 != name
    .directory (others ++ [(name, alter change rest (tree.entry? name))])

/-- Adds a file, with the directories on the way to it. -/
def addFile (tree : FileTree) (path : Text) (content : ByteArray) : FileTree :=
  alter (fun _ => .file content) (Text.pieces ['/'] path) (some tree)

/-- Adds a directory, with the directories on the way to it, unless it is there. -/
def addDirectory (tree : FileTree) (path : Text) : FileTree :=
  alter (fun old => old.getD empty) (Text.pieces ['/'] path) (some tree)

/-- Follows the parts of a path. The tree reached comes first and the directories above it after. -/
def follow : List FileTree → List Text → Option FileTree
  | [], _ => none
  | here :: _, [] => some here
  | here :: above, part :: rest =>
    match here with
    | .file _ => none
    | .directory entries =>
      if part = [] ∨ part = ['.'] then follow (here :: above) rest
      else if part = ['.', '.'] then follow above rest
      else
        match entries.lookup part with
        | none => none
        | some next => follow (next :: here :: above) rest

/-- What a path relative to the tree leads to. -/
def find? (tree : FileTree) (path : Text) : Option FileTree :=
  match path with
  | [] | '/' :: _ => none
  | path => follow [tree] (Text.pieces ['/'] path)

end FileTree

end ComponentFile.Discovery
