import PetriNets.Format.Basic
import PetriNets.Format.Ron.Basic
import PetriNets.Text.Quoted

/-!
# RON text

How RON values are written: four blanks to a level, one item, entry or field to a line with a comma
after each, nothing between the brackets of what is empty, and no names before records. `Ron.format`
makes RON a document format.
-/

namespace PetriNets.Ron

/-- A name as it is written: after `r#` where it would not read as a name by itself. -/
def nameChars (name : String) : List Char :=
  match name.toList with
  | c :: cs =>
    if Text.isIdentifierStart c && cs.all Text.isIdentifierRest then c :: cs
    else 'r' :: '#' :: c :: cs
  | [] => []

/-- A new line at the given level. -/
def newline (level : Nat) : List Char := '\n' :: List.replicate (4 * level) ' '

mutual

/-- The text of a value at the given level. -/
def chars (level : Nat) : Ron → List Char
  | .word name => nameChars name
  | .natural n => Text.decimalChars n
  | .text s => Text.quotedChars s.toList
  | .other => ['-', '1']
  | .list [] => ['[', ']']
  | .list (v :: vs) =>
    '[' :: newline (level + 1) ++ chars (level + 1) v ++ [','] ++ itemChars level vs
  | .map [] => ['{', '}']
  | .map ((k, v) :: es) =>
    '{' :: newline (level + 1) ++ chars (level + 1) k ++ [':', ' '] ++ chars (level + 1) v ++
      [','] ++ entryChars level es
  | .tuple name [] => nameChars (name.getD "") ++ ['(', ')']
  | .tuple name (v :: vs) =>
    nameChars (name.getD "") ++ '(' :: chars level v ++ tupleChars level vs
  | .record name [] => nameChars (name.getD "") ++ ['(', ')']
  | .record name ((k, v) :: fs) =>
    nameChars (name.getD "") ++ '(' :: newline (level + 1) ++ nameChars k ++ [':', ' '] ++
      chars (level + 1) v ++ [','] ++ fieldChars level fs

/-- The text of a list at the given level from its second item on. -/
def itemChars (level : Nat) : List Ron → List Char
  | [] => newline level ++ [']']
  | v :: vs => newline (level + 1) ++ chars (level + 1) v ++ [','] ++ itemChars level vs

/-- The text of a map at the given level from its second entry on. -/
def entryChars (level : Nat) : List (Ron × Ron) → List Char
  | [] => newline level ++ ['}']
  | (k, v) :: es =>
    newline (level + 1) ++ chars (level + 1) k ++ [':', ' '] ++ chars (level + 1) v ++ [','] ++
      entryChars level es

/-- The text of a tuple at the given level from its second value on. -/
def tupleChars (level : Nat) : List Ron → List Char
  | [] => [')']
  | v :: vs => [',', ' '] ++ chars level v ++ tupleChars level vs

/-- The text of a record at the given level from its second field on. -/
def fieldChars (level : Nat) : List (String × Ron) → List Char
  | [] => newline level ++ [')']
  | (k, v) :: fs =>
    newline (level + 1) ++ nameChars k ++ [':', ' '] ++ chars (level + 1) v ++ [','] ++
      fieldChars level fs

end

/-- The text of a value. -/
def print (v : Ron) : String := String.ofList (chars 0 v)

/-! ## Documents -/

/-- The value of a field that must not be written twice. -/
def field? (fs : List (String × Ron)) (name : String) : Option (Option Ron) :=
  match fs.filter (·.1 = name) with
  | [] => some none
  | [f] => some (some f.2)
  | _ => none

/-- Whether a value may bear this name: that of its type, or none where names are not demanded. -/
def agrees (s : Switches) (type : String) : Option String → Bool
  | none => !s.explicitNames
  | some name => name = type

/-- A record of the named type. -/
def record? (s : Switches) (type : String) (fields : List String) :
    Ron → Option (List (Option Ron))
  | .record name fs => if agrees s type name then fields.mapM (field? fs) else none
  | .tuple name [] => if agrees s type name then some (fields.map fun _ => none) else none
  | _ => none

/-- A value wrapped up as one of the named type. -/
def wrapped? (s : Switches) (type : String) (v : Ron) : Option Ron :=
  if s.unwrapNewtypes then some v
  else
    match v with
    | .tuple name [v] => if agrees s type name then some v else none
    | _ => none

/-- An optional value. -/
def option? (s : Switches) : Ron → Option (Option Ron)
  | .word "None" => some none
  | .tuple (some "Some") [v] => some (some v)
  | v => if s.implicitSome then some (some v) else none

/-- The entries of a map whose keys are texts. -/
def mapping? : Ron → Option (List (String × Ron))
  | .map es => es.mapM fun e =>
    match e.1 with
    | .text k => some (k, e.2)
    | _ => none
  | _ => none

/-- A case: its name alone, or with what it carries in parentheses. -/
def case? : Ron → Option (String × Option Ron)
  | .word name => some (name, none)
  | .tuple (some name) [v] => some (name, some v)
  | _ => none

/-- How documents are written to RON. -/
def writer : Writer Ron where
  text := .text
  natural := .natural
  option v :=
    match v with
    | none => .word "None"
    | some v => .tuple (some "Some") [v]
  items := .list
  mapping es := .map (es.map fun e => (.text e.1, e.2))
  record _ fs := .record none fs
  wrapped _ v := .tuple none [v]
  case name v :=
    match v with
    | none => .word name
    | some v => .tuple (some name) [v]

/-- How documents are read from a RON text with the given switches. -/
def reader (s : Switches) : Reader Ron where
  text? := fun | .text s => some s | _ => none
  natural? := fun | .natural n => some n | _ => none
  option? := option? s
  items? := fun | .list vs => some vs | _ => none
  mapping? := mapping?
  record? := record? s
  wrapped? := wrapped? s
  case? := case?

/-- RON as a document format. -/
def format : Format Ron where
  writer := writer
  print := print
  parse? text := (parse? text).map fun (switches, v) => (reader switches, v)

end PetriNets.Ron
