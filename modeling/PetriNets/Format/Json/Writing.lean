import PetriNets.Format.Basic
import PetriNets.Format.Json.Basic

/-!
# JSON text

How JSON values are written: two blanks to a level, one item or member to a line, nothing between
the brackets of an empty list or object. Only what has to be escaped is escaped. `Json.format` makes
JSON a document format; a record may be read from a list of its fields as well as from an object.
-/

namespace PetriNets.Json

/-- How a character is written inside a string. -/
def escaped (c : Char) : List Char :=
  match c with
  | '"' => ['\\', '"']
  | '\\' => ['\\', '\\']
  | '\x08' => ['\\', 'b']
  | '\x0c' => ['\\', 'f']
  | '\n' => ['\\', 'n']
  | '\r' => ['\\', 'r']
  | '\t' => ['\\', 't']
  | _ =>
    if c.toNat < 0x10 then ['\\', 'u', '0', '0', '0'] ++ Nat.toDigits 16 c.toNat
    else if c.toNat < 0x20 then ['\\', 'u', '0', '0'] ++ Nat.toDigits 16 c.toNat
    else [c]

/-- A string between its quotes; one that spells no text is written as half a surrogate pair. -/
def stringChars : Option String → List Char
  | some s => '"' :: s.toList.flatMap escaped ++ ['"']
  | none => ['"', '\\', 'u', 'd', '8', '0', '0', '"']

/-- A new line at the given level. -/
def newline (level : Nat) : List Char := '\n' :: List.replicate (2 * level) ' '

mutual

/-- The text of a value at the given level. -/
def chars (level : Nat) : Json → List Char
  | .null => ['n', 'u', 'l', 'l']
  | .bool true => ['t', 'r', 'u', 'e']
  | .bool false => ['f', 'a', 'l', 's', 'e']
  | .natural n => Text.decimalChars n
  | .number => ['-', '0']
  | .text s => stringChars s
  | .array [] => ['[', ']']
  | .array (v :: vs) =>
    '[' :: newline (level + 1) ++ chars (level + 1) v ++ itemChars level vs
  | .object [] => ['{', '}']
  | .object ((k, v) :: ms) =>
    '{' :: newline (level + 1) ++ stringChars k ++ [':', ' '] ++ chars (level + 1) v ++
      memberChars level ms

/-- The text of a list at the given level from its second item on. -/
def itemChars (level : Nat) : List Json → List Char
  | [] => newline level ++ [']']
  | v :: vs => ',' :: newline (level + 1) ++ chars (level + 1) v ++ itemChars level vs

/-- The text of an object at the given level from its second member on. -/
def memberChars (level : Nat) : List (Option String × Json) → List Char
  | [] => newline level ++ ['}']
  | (k, v) :: ms =>
    ',' :: newline (level + 1) ++ stringChars k ++ [':', ' '] ++ chars (level + 1) v ++
      memberChars level ms

end

/-- The text of a value. -/
def print (v : Json) : String := String.ofList (chars 0 v)

/-! ## Documents -/

/-- The object of the given members. -/
def ofMembers (ms : List (String × Json)) : Json := .object (ms.map fun m => (some m.1, m.2))

/-- The members of an object whose keys all spell texts. -/
def members (ms : List (Option String × Json)) : Option (List (String × Json)) :=
  ms.mapM fun m => m.1.map (·, m.2)

/-- The value of a field that must not be written twice. -/
def field? (ms : List (String × Json)) (name : String) : Option (Option Json) :=
  match ms.filter (·.1 = name) with
  | [] => some none
  | [m] => some (some m.2)
  | _ => none

/-- A record from an object, or from a list that holds its first fields. -/
def record? (fields : List String) : Json → Option (List (Option Json))
  | .object ms => do fields.mapM (field? (← members ms))
  | .array vs =>
    if vs.length ≤ fields.length then
      some (vs.map some ++ List.replicate (fields.length - vs.length) none)
    else none
  | _ => none

/-- A case: its name alone, or an object with the name and what the case carries. -/
def case? : Json → Option (String × Option Json)
  | .text (some name) => some (name, none)
  | .object [(some name, .null)] => some (name, none)
  | .object [(some name, v)] => some (name, some v)
  | _ => none

/-- How documents are written to JSON. -/
def writer : Writer Json where
  text s := .text (some s)
  natural := .natural
  option v := v.getD .null
  items := .array
  mapping := ofMembers
  record _ := ofMembers
  wrapped _ v := v
  case name v :=
    match v with
    | none => .text (some name)
    | some v => ofMembers [(name, v)]

/-- How documents are read from JSON. -/
def reader : Reader Json where
  text? := fun | .text s => s | _ => none
  natural? := fun | .natural n => some n | _ => none
  option? := fun | .null => some none | v => some (some v)
  items? := fun | .array vs => some vs | _ => none
  mapping? := fun | .object ms => members ms | _ => none
  record? _ := record?
  wrapped? _ v := some v
  case? := case?

/-- JSON as a document format. -/
def format : Format Json where
  writer := writer
  print := print
  parse? s := (parse? s).map (reader, ·)

end PetriNets.Json
