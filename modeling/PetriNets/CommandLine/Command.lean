import PetriNets.CommandLine.Report
import PetriNets.CommandLine.Words

/-!
# The command

One run of the command, over any surroundings that can read, write and print. `Folder` is a folder
of files held as a value; with it a run is a function.
-/

namespace PetriNets.CommandLine

/-- Why a command failed. -/
inductive CommandError where
  /-- A quote that is not closed in the words given beforehand. -/
  | malformedFlags
  | options (error : OptionsError)
  | config (error : ConfigError)
  | net (path : String) (error : ReadError)
  | analysis (error : AnalysisError)
  /-- A file that could not be written. -/
  | output (path : String)
deriving DecidableEq

/-- The wording of the error. -/
def CommandError.message : CommandError → String
  | malformedFlags => "malformed PN_FLAGS"
  | options e => e.message
  | config e => e.message
  | net path _ => s!"failed to read net {path}"
  | analysis e => e.message
  | output path => s!"failed to write {path}"

/-- What a command needs of the world. -/
structure Surroundings (m : Type → Type) where
  read : String → m PathContent
  /-- Writes a text to a path and tells whether that was possible. -/
  write : String → String → m Bool
  print : String → m Unit

variable {m : Type → Type} [Monad m]

/-- Runs a command, whose words are those of `flags` and then those of `args`. The settings are read
first, then the net; a time limit given as an option takes the place of the one in the settings. -/
def run (s : Surroundings m) (flags : String) (args : List String) : ExceptT CommandError m Unit := do
  let first ← ExceptT.mk (pure ((words? flags).elim (.error .malformedFlags) .ok))
  let options ← ExceptT.mk (pure ((Options.ofWords (first ++ args)).mapError .options))
  let settings ← s.read options.config
  let config ← ExceptT.mk (pure ((readConfig options.config settings).mapError .config))
  let config := { config with timeoutMs := options.timeoutMs <|> config.timeoutMs }
  let document ← s.read options.net
  let net ← ExceptT.mk (pure ((readNet options.net document).mapError (.net options.net)))
  let report ← ExceptT.mk (pure ((report options config net).mapError .analysis))
  s.print (report.output options)
  match report.document? options with
  | none => return
  | some (path, text) => if !(← s.write path text) then throw (.output path)

/-! ## Folders -/

/-- A folder of files, and what has been printed by a command that works there. -/
structure Folder where
  files : List (String × ByteArray)
  printed : String

namespace Folder

/-- Whether a part of a path leads nowhere else. -/
def isStill (part : String) : Bool := part = "" || part = "."

/-- The name of the file that a path leads to from inside the folder: with nothing but the folder
itself before it, and with nothing behind it. -/
def localName? (path : String) : Option String :=
  match (path.splitOn "/").reverse with
  | name :: before =>
    if before.all isStill && !path.startsWith "/" && !isStill name && name ≠ ".." then some name
    else none
  | [] => none

/-- What stands at a path: a file, or the folder itself. -/
def content (f : Folder) (path : String) : PathContent :=
  match localName? path with
  | some name => (f.files.lookup name).elim .missing .file
  | none =>
    if (path.splitOn "/").all isStill && path ≠ "" && !path.startsWith "/" then .unreadable
    else .missing

/-- Puts a file into the folder. -/
def put (f : Folder) (name : String) (bytes : ByteArray) : Folder :=
  { f with files := (name, bytes) :: f.files.filter (·.1 ≠ name) }

/-- The folder as surroundings of a command. -/
def surroundings : Surroundings (StateM Folder) where
  read path := return (← get).content path
  write path text := do
    match localName? path with
    | some name =>
      modify (·.put name text.toUTF8)
      return true
    | none => return false
  print text := modify fun f => { f with printed := f.printed ++ text }

/-- Runs a command in the folder. -/
def run (f : Folder) (flags : String) (args : List String) : Except CommandError Unit × Folder :=
  StateT.run (CommandLine.run surroundings flags args).run f

end Folder

end PetriNets.CommandLine
