import ComponentFile.Command.Execution

/-!
# The command line program

Reads what the paths among the arguments lead to, runs the command, and prints what it leaves
behind.
-/

namespace ComponentFile.Main

open ComponentFile.Discovery

/-- Reads a file or directory, with everything below it that is not hidden. -/
partial def readTree (path : String) : IO (Option FileTree) := do
  let place := (← IO.currentDir) / path
  if ← place.isDir then
    let mut entries := []
    for entry in ← place.readDir do
      let name := entry.fileName.toList
      unless isHidden name do
        if let some tree ← readTree (path ++ "/" ++ entry.fileName) then
          entries := (name, tree) :: entries
    return some (.directory entries)
  else if ← place.pathExists then
    return some (.file (← IO.FS.readBinFile place))
  else return none

/-- Runs the command on the files of the system. -/
def runOnFiles (arguments : List String) : IO Command.Outcome := do
  let arguments := arguments.map String.toList
  let mut trees := []
  for path in Command.lookedUp arguments do
    if let some tree ← readTree (String.ofList path) then
      trees := (path, tree) :: trees
  return Command.run (fun path => trees.lookup path) arguments

end ComponentFile.Main

/-- The command. -/
def main (arguments : List String) : IO UInt32 := do
  let outcome ← ComponentFile.Main.runOnFiles arguments
  IO.print outcome.output
  IO.eprint outcome.messages
  return outcome.code.toUInt32
