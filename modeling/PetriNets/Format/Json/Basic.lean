import PetriNets.Text.Digits

/-!
# JSON values

JSON as a tree, and its reader. The reader is strict: no comments, no trailing commas, no control
characters inside strings, nothing but blanks after the value. Numbers other than plain naturals are
kept only as what they are, since nothing reads them; a string in which half a surrogate pair is
escaped is well formed but spells no text.
-/

namespace PetriNets

/-- A JSON value. Strings and keys are `none` where they spell no text. -/
inductive Json where
  | null
  | bool (value : Bool)
  | natural (value : Nat)
  /-- A number with a sign, a fraction or an exponent. -/
  | number
  | text (value : Option String)
  | array (items : List Json)
  | object (members : List (Option String × Json))

namespace Json

/-! ## Strings -/

/-- One character of a string as it is written: plain, or as a 16-bit unit after `\u`. -/
inductive Piece where
  | plain (c : Char)
  | unit (n : Nat)
deriving DecidableEq

/-- The text that the pieces spell: two units that form a surrogate pair are one character, and no
other unit may be half a pair. -/
def spell? : List Piece → Option (List Char)
  | [] => some []
  | .plain c :: rest => (spell? rest).map (c :: ·)
  | .unit h :: .unit l :: rest =>
    if 0xd800 ≤ h ∧ h < 0xdc00 then
      if 0xdc00 ≤ l ∧ l < 0xe000 then
        (spell? rest).map (Char.ofNat (0x10000 + (h - 0xd800) * 0x400 + (l - 0xdc00)) :: ·)
      else none
    else if 0xdc00 ≤ h ∧ h < 0xe000 then none
    else (spell? (.unit l :: rest)).map (Char.ofNat h :: ·)
  | .unit h :: rest =>
    if 0xd800 ≤ h ∧ h < 0xe000 then none else (spell? rest).map (Char.ofNat h :: ·)

/-- The character that stands after a backslash for another one. -/
def simpleEscape? : Char → Option Char
  | '"' => some '"'
  | '\\' => some '\\'
  | '/' => some '/'
  | 'b' => some '\x08'
  | 'f' => some '\x0c'
  | 'n' => some '\n'
  | 'r' => some '\r'
  | 't' => some '\t'
  | _ => none

/-- Reads the pieces of a string up to its closing quote. -/
def pieces? : List Char → Option (List Piece × List Char)
  | [] => none
  | '"' :: rest => some ([], rest)
  | '\\' :: 'u' :: a :: b :: c :: d :: rest => do
    let n ← Text.number? 16 0 [a, b, c, d]
    let (ps, rest) ← pieces? rest
    some (.unit n :: ps, rest)
  | '\\' :: e :: rest => do
    let c ← simpleEscape? e
    let (ps, rest) ← pieces? rest
    some (.plain c :: ps, rest)
  | c :: rest => do
    if c.toNat < 0x20 || c == '\\' then none
    else
      let (ps, rest) ← pieces? rest
      some (.plain c :: ps, rest)

/-- Reads a string after its opening quote. -/
def string? (cs : List Char) : Option (Option String × List Char) :=
  (pieces? cs).map fun (ps, rest) => ((spell? ps).map String.ofList, rest)

/-! ## Numbers -/

/-- Passes over one digit or more. -/
def digits1? : List Char → Option (List Char)
  | c :: rest => if c.isDigit then some (rest.dropWhile Char.isDigit) else none
  | [] => none

/-- Passes over a fraction, if there is one. -/
def fraction? : List Char → Option (List Char)
  | '.' :: rest => digits1? rest
  | cs => some cs

/-- Passes over an exponent, if there is one. -/
def exponent? : List Char → Option (List Char)
  | 'e' :: '+' :: rest | 'e' :: '-' :: rest | 'E' :: '+' :: rest | 'E' :: '-' :: rest
  | 'e' :: rest | 'E' :: rest => digits1? rest
  | cs => some cs

/-- Passes over the digits before a fraction, which begin with zero only if it is the only one. -/
def whole? : List Char → Option (List Char)
  | '0' :: rest => if rest.head?.any Char.isDigit then none else some rest
  | cs => digits1? cs

/-- Reads a number. -/
def number? : List Char → Option (Json × List Char)
  | '-' :: cs => do
    let rest ← exponent? (← fraction? (← whole? cs))
    some (.number, rest)
  | cs => do
    match ← whole? cs with
    | rest@('.' :: _) | rest@('e' :: _) | rest@('E' :: _) =>
      some (.number, ← exponent? (← fraction? rest))
    | rest => some (.natural (← Text.number? 10 0 (cs.takeWhile Char.isDigit)), rest)

/-! ## Values -/

/-- Whether the character may stand between the parts of a value. -/
def isBlank (c : Char) : Bool := c == ' ' || c == '\n' || c == '\t' || c == '\r'

/-- Passes over blanks. -/
def blanks (cs : List Char) : List Char := cs.dropWhile isBlank

mutual

/-- Reads a value that begins at once. Each level and each item takes one unit of fuel. -/
def value? : Nat → List Char → Option (Json × List Char)
  | 0, _ => none
  | fuel + 1, cs =>
    match cs with
    | 'n' :: 'u' :: 'l' :: 'l' :: rest => some (.null, rest)
    | 't' :: 'r' :: 'u' :: 'e' :: rest => some (.bool true, rest)
    | 'f' :: 'a' :: 'l' :: 's' :: 'e' :: rest => some (.bool false, rest)
    | '"' :: rest => (string? rest).map fun (s, rest) => (.text s, rest)
    | '[' :: rest =>
      match blanks rest with
      | ']' :: rest => some (.array [], rest)
      | rest => (items? fuel rest).map fun (vs, rest) => (.array vs, rest)
    | '{' :: rest =>
      match blanks rest with
      | '}' :: rest => some (.object [], rest)
      | rest => (members? fuel rest).map fun (ms, rest) => (.object ms, rest)
    | _ => number? cs

/-- Reads the items of a list up to its closing bracket. -/
def items? : Nat → List Char → Option (List Json × List Char)
  | 0, _ => none
  | fuel + 1, cs => do
    let (v, rest) ← value? fuel cs
    match blanks rest with
    | ']' :: rest => some ([v], rest)
    | ',' :: rest =>
      let (vs, rest) ← items? fuel (blanks rest)
      some (v :: vs, rest)
    | _ => none

/-- Reads the members of an object up to its closing brace. -/
def members? : Nat → List Char → Option (List (Option String × Json) × List Char)
  | 0, _ => none
  | fuel + 1, cs =>
    match cs with
    | '"' :: rest => do
      let (k, rest) ← string? rest
      match blanks rest with
      | ':' :: rest =>
        let (v, rest) ← value? fuel (blanks rest)
        match blanks rest with
        | '}' :: rest => some ([(k, v)], rest)
        | ',' :: rest =>
          let (ms, rest) ← members? fuel (blanks rest)
          some ((k, v) :: ms, rest)
        | _ => none
      | _ => none
    | _ => none

end

/-- The value of a whole text. -/
def parse? (s : String) : Option Json := do
  let cs := s.toList
  let (v, rest) ← value? (2 * (cs.length + 1)) (blanks cs)
  if blanks rest = [] then some v else none

end Json

end PetriNets
