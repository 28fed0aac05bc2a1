import ComponentFile.Discovery.FileTree

/-!
# Finding component files

Paths given by name are kept as they are when they lead to a file, whatever its ending. A directory
is searched through and through for files with a wanted ending, except for hidden entries. The
result is in increasing order of the paths, and of paths with the same components only the first is
kept.
-/

namespace ComponentFile.Discovery

/-- A file that was found, by the path that led to it. -/
structure SourceFile where
  path : Text
  content : ByteArray

/-- A path that leads nowhere. -/
structure MissingPath where
  path : Text
  deriving DecidableEq, Repr

/-- The wording for a path that leads nowhere. -/
def MissingPath.message (missing : MissingPath) : Text := missing.path ++ " does not exist".toList

/-- Whether an entry is hidden. -/
def isHidden (name : Text) : Bool := name.head? == some '.'

mutual

/-- The files with a wanted ending below a directory that is known by the given path. -/
def search (extensions : List Text) (path : Text) : FileTree → List SourceFile
  | .file _ => []
  | .directory entries => searchEntries extensions path entries

/-- The files with a wanted ending among the given entries and below them. -/
def searchEntries (extensions : List Text) (path : Text) : List (Text × FileTree) → List SourceFile
  | [] => []
  | (name, .file content) :: rest =>
    let others := searchEntries extensions path rest
    if !isHidden name && hasExtension extensions name then
      { path := entryPath path name, content } :: others
    else others
  | (name, .directory entries) :: rest =>
    let others := searchEntries extensions path rest
    if isHidden name then others
    else search extensions (entryPath path name) (.directory entries) ++ others

end

/-- The files that one path stands for. -/
def filesAt (lookup : Text → Option FileTree) (extensions : List Text) (path : Text) :
    Except MissingPath (List SourceFile) :=
  match lookup path with
  | none => .error { path }
  | some (.file content) => .ok [{ path, content }]
  | some (.directory entries) => .ok (search extensions path (.directory entries))

/-- The files in increasing order of their paths; those with equal paths stay in their order. -/
def sortFiles (files : List SourceFile) : List SourceFile :=
  files.mergeSort fun left right => !(decide (pathKey right.path < pathKey left.path))

/-- Keeps the first of neighbours whose paths have the same components. -/
def dropRepeats : List SourceFile → List SourceFile
  | [] => []
  | file :: rest =>
    match dropRepeats rest with
    | [] => [file]
    | next :: others =>
      if pathKey file.path = pathKey next.path then file :: others else file :: next :: others

/-- The component files that the paths stand for; without a path, those below the working directory.
`lookup` says what a path leads to. The first path that leads nowhere is an error. -/
def findDocuments (lookup : Text → Option FileTree) (paths : List Text) (extensions : List Text) :
    Except MissingPath (List SourceFile) := do
  let paths := if paths.isEmpty then [['.']] else paths
  let found ← paths.mapM (filesAt lookup extensions)
  return dropRepeats (sortFiles found.flatten)

end ComponentFile.Discovery
