import PetriNets.CommandLine.Command

/-!
# The program

The command in the real world: its words come from the variable `PN_FLAGS` and from the command
line, and its files from the file system.
-/

namespace PetriNets.CommandLine

/-- What stands at a path of the file system. A path that cannot be followed to its end leads to
nothing. -/
def readPath (path : String) : IO PathContent := do
  try
    let _ ← IO.FS.realPath path
  catch _ => return .missing
  try
    return .file (← IO.FS.readBinFile path)
  catch _ => return .unreadable

/-- Writes a file of the file system. -/
def writePath (path text : String) : IO Bool := do
  try
    IO.FS.writeFile path text
    return true
  catch _ => return false

/-- The file system as surroundings of a command. -/
def fileSystem : Surroundings IO where
  read := readPath
  write := writePath
  print := IO.print

end PetriNets.CommandLine

/-- Runs the command; a failure is told on the error stream. -/
def main (args : List String) : IO UInt32 := do
  let flags := (← IO.getEnv "PN_FLAGS").getD ""
  match ← (PetriNets.CommandLine.run PetriNets.CommandLine.fileSystem flags args).run with
  | .ok () => return 0
  | .error e =>
    IO.eprintln s!"Error: {e.message}"
    return 1
