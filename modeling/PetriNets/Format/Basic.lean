import PetriNets.Token

/-!
# Text formats

A document is written as a value `V` of some text format and read back from one. `Writer` and
`Reader` list what a format has to offer for that: texts, numbers, optional values, lists, maps,
records, wrapped values and the cases of an enumeration. A document is described once, over any
writer and any reader, and so is read and written alike in every format.
-/

namespace PetriNets

/-- How the values of a format are put together. -/
structure Writer (V : Type) where
  text : String → V
  natural : Nat → V
  option : Option V → V
  items : List V → V
  mapping : List (String × V) → V
  /-- A record of the named type with the fields that are present. -/
  record : String → List (String × V) → V
  /-- A value wrapped up as one of the named type. -/
  wrapped : String → V → V
  /-- A case of an enumeration, with what it carries. -/
  case : String → Option V → V

/-- How the values of a format are taken apart; each part fails on values of another kind. -/
structure Reader (V : Type) where
  text? : V → Option String
  natural? : V → Option Nat
  option? : V → Option (Option V)
  items? : V → Option (List V)
  /-- The entries of a map, as often as each key is written. -/
  mapping? : V → Option (List (String × V))
  /-- The fields of a record of the named type, in the order asked for; `none` where a field is
  absent. Unknown fields are passed over, and a field must not be written twice. -/
  record? : String → List String → V → Option (List (Option V))
  wrapped? : String → V → Option V
  case? : V → Option (String × Option V)

/-- A text format: its values, and how they are written and read as text. A text may itself tell how
it is to be read, so parsing gives a reader beside the value. -/
structure Format (V : Type) where
  writer : Writer V
  print : V → String
  parse? : String → Option (Reader V × V)

/-- What can be written to a document and read from one. -/
class Documented (α : Type) where
  encode : {V : Type} → Writer V → α → V
  decode? : {V : Type} → Reader V → V → Option α

namespace Reader

variable {V : Type} (r : Reader V)

/-- A number that fits in a 64-bit word. -/
def word? (v : V) : Option Nat := (r.natural? v).filter fun n => n ≤ maxWord

/-- A list whose items are all read alike. -/
def list? {α : Type} (item? : V → Option α) (v : V) : Option (List α) := do
  (← r.items? v).mapM item?

/-- An optional value. -/
def optional? {α : Type} (value? : V → Option α) (v : V) : Option (Option α) := do
  match ← r.option? v with
  | none => some none
  | some v => some (some (← value? v))

end Reader

/-- A field that has to be present. -/
def required? {V α : Type} (value? : V → Option α) : Option V → Option α
  | none => none
  | some v => value? v

/-- A field that has a value of its own when it is absent. -/
def defaulted? {V α : Type} (default : α) (value? : V → Option α) : Option V → Option α
  | none => some default
  | some v => value? v

namespace Format

variable {V : Type} (f : Format V) {α : Type} [Documented α]

/-- The text of a document. -/
def write (a : α) : String := f.print (Documented.encode f.writer a)

/-- The document of a text. -/
def read? (s : String) : Option α := do
  let (reader, v) ← f.parse? s
  Documented.decode? reader v

end Format

end PetriNets
