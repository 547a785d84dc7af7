import PetriNets.Document.Net
import PetriNets.Document.System
import PetriNets.Format.Json.Writing
import PetriNets.Format.Ron.Writing
import PetriNets.Format.Toml.Reading
import PetriNets.Text.Quoted

/-!
# Documents in files

How a document is read from what stands at a path. The ending of the path tells the format: `.json`
or `.ron` for nets and transition systems. Analysis settings are always TOML, and where there is no
file of settings the default ones apply.
-/

namespace PetriNets

/-- What stands at a path. -/
inductive PathContent where
  /-- There is nothing. -/
  | missing
  /-- There is something that cannot be read, such as a directory. -/
  | unreadable
  | file (bytes : ByteArray)

/-- The text of a file; nothing if there is no file, or its bytes are not UTF-8. -/
def PathContent.text? : PathContent → Option String
  | file bytes => String.fromUTF8? bytes
  | _ => none

/-! ## Paths -/

/-- The name at the end of a path; nothing if the path leads to a directory by its form. -/
def fileName? (path : String) : Option String :=
  let parts := (path.splitOn "/").filter fun part => part ≠ "" && part ≠ "."
  parts.getLast?.filter (· ≠ "..")

/-- What follows the last dot of a name. A dot at its beginning does not count. -/
def nameEnding? (name : String) : Option String :=
  match (name.splitOn ".").reverse with
  | [] | [_] | [_, ""] => none
  | ending :: _ => some ending

/-- The ending of the file name of a path. -/
def pathEnding? (path : String) : Option String := (fileName? path).bind nameEnding?

/-! ## Nets and transition systems -/

/-- Why a document could not be read. -/
inductive ReadError where
  /-- The text is no such document in JSON. -/
  | json
  /-- The text is no such document in RON. -/
  | ron
  /-- There is no text at the path. -/
  | unreadable
  /-- The path has another ending, or none. -/
  | unknownFormat (ending : String)
  /-- The document describes something that does not exist. -/
  | invalid (error : GraphError)
deriving DecidableEq

/-- The wording of the error. -/
def ReadError.message : ReadError → String
  | json => "json error"
  | ron => "ron parse error"
  | unreadable => "io error"
  | unknownFormat ending => s!"unsupported document extension `{ending}`, expected .json or .ron"
  | invalid error => s!"invalid document: {error.message}"

/-- Reads a document in a format, or gives the error of that format. -/
def readText {V α : Type} [Documented α] (f : Format V) (error : ReadError)
    (content : PathContent) : Except ReadError α :=
  match content.text? with
  | none => .error .unreadable
  | some s =>
    match f.read? s with
    | some a => .ok a
    | none => .error error

/-- Reads a document in the format that its path tells. -/
def readDocument {α : Type} [Documented α] (path : String) (content : PathContent) :
    Except ReadError α :=
  match pathEnding? path with
  | some "json" => readText Json.format .json content
  | some "ron" => readText Ron.format .ron content
  | ending => .error (.unknownFormat (ending.getD ""))

/-- Reads a net. -/
def readNet (path : String) (content : PathContent) : Except ReadError Net := do
  let d : NetDocument ← readDocument path content
  d.toNet.mapError .invalid

/-- Reads a transition system. -/
def readSystem (path : String) (content : PathContent) : Except ReadError TransitionSystem := do
  let d : SystemDocument ← readDocument path content
  d.toSystem.mapError .invalid

/-! ## Analysis settings -/

/-- Why a file of settings could not be used. -/
inductive ConfigError where
  /-- There is something at the path, but no text. -/
  | unreadable (path : String)
  /-- The text does not give settings. -/
  | malformed (path : String)
deriving DecidableEq

/-- The wording of the error. -/
def ConfigError.message : ConfigError → String
  | unreadable path => "Failed to read config file: " ++ Text.fullyQuoted path
  | malformed path => "Failed to parse config file: " ++ Text.fullyQuoted path

/-- Reads settings; without a file they are the default ones. -/
def readConfig (path : String) (content : PathContent) : Except ConfigError AnalysisConfig :=
  match content, content.text? with
  | .missing, _ => .ok default
  | _, none => .error (.unreadable path)
  | _, some s =>
    match Toml.read? s with
    | some config => .ok config
    | none => .error (.malformed path)

end PetriNets
