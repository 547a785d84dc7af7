import PetriNets.Text.Digits
import PetriNets.Text.Identifier

/-!
# RON values

The object notation RON as a tree, and its reader. Between any two parts there may be blanks, line
comments and nested block comments, and every list may end with a comma. A value may be nested only
so deep: each bracket and each item in it counts as one level, and there are `maxDepth` of them.
Values that no document holds (characters, byte strings, fractions, negative numbers) are kept only
as what they are. Attributes at the beginning of a text tell how its values are to be read.
-/

namespace PetriNets

/-- A RON value. -/
inductive Ron where
  /-- A name that stands alone, as `None` does. -/
  | word (name : String)
  | natural (value : Nat)
  | text (value : String)
  /-- A character, a byte string, or a number that is not a natural one. -/
  | other
  | list (items : List Ron)
  | map (entries : List (Ron × Ron))
  /-- Values in parentheses, with the name before them. -/
  | tuple (name : Option String) (items : List Ron)
  /-- Named fields in parentheses, with the name before them. -/
  | record (name : Option String) (fields : List (String × Ron))

namespace Ron

/-- How many levels of brackets and items a value may have. -/
def maxDepth : Nat := 128

/-! ## Blanks and comments -/

/-- Whether the character may stand between the parts of a value. -/
def isBlank (c : Char) : Bool :=
  [' ', '\t', '\n', '\r', '\x0b', '\x0c', '\u0085', '\u200e', '\u200f', '\u2028', '\u2029'].contains
    c

/-- What is passed over between two parts of a value. -/
inductive Gap where
  /-- Blanks. -/
  | blank
  /-- A comment up to the end of its line. -/
  | line
  /-- A block comment inside so many others. -/
  | block (around : Nat)

/-- Passes over the rest of a gap. Every block comment has to be closed. -/
def pass? : Gap → List Char → Option (List Char)
  | .blank, '/' :: '/' :: cs => pass? .line cs
  | .blank, '/' :: '*' :: cs => pass? (.block 0) cs
  | .blank, c :: cs =>
    if isBlank c then pass? .blank cs else if c = '/' then none else some (c :: cs)
  | .line, c :: cs => pass? (if c = '\n' then .blank else .line) cs
  | .block 0, '*' :: '/' :: cs => pass? .blank cs
  | .block (n + 1), '*' :: '/' :: cs => pass? (.block n) cs
  | .block n, '/' :: '*' :: cs => pass? (.block (n + 1)) cs
  | .block n, _ :: cs => pass? (.block n) cs
  | .block _, [] => none
  | _, [] => some []

/-- Passes over blanks and comments. -/
def blanks? (cs : List Char) : Option (List Char) := pass? .blank cs

/-! ## Names -/

/-- Whether a name after `r#` may hold the character. -/
def isRawNameChar (c : Char) : Bool :=
  c == '.' || c == '+' || c == '-' || Text.isIdentifierRest c

/-- Whether a string or a byte begins here, although its first letter could begin a name. -/
def beginsLiteral : List Char → Bool
  | 'b' :: '"' :: _ | 'b' :: '\'' :: _ | 'b' :: 'r' :: '"' :: _ | 'b' :: 'r' :: '#' :: _
  | 'r' :: '"' :: _ | 'r' :: '#' :: '"' :: _ | 'r' :: '#' :: '#' :: _ => true
  | _ => false

/-- Reads a name, plain or after `r#`. -/
def name? (cs : List Char) : Option (String × List Char) :=
  if beginsLiteral cs then none
  else
    match cs with
    | 'r' :: '#' :: rest =>
      match rest.takeWhile isRawNameChar with
      | [] => none
      | n => some (String.ofList n, rest.dropWhile isRawNameChar)
    | c :: rest =>
      if Text.isIdentifierStart c then
        some (String.ofList (c :: rest.takeWhile Text.isIdentifierRest),
          rest.dropWhile Text.isIdentifierRest)
      else none
    | [] => none

/-- Reads one of the given words, if it is not the beginning of a longer name. -/
def anyWord? (words : List String) (cs : List Char) : Option (List Char) :=
  words.findSome? fun w =>
    if w.toList.isPrefixOf cs then
      let rest := cs.drop w.length
      if rest.head?.any Text.isIdentifierRest then none else some rest
    else none

/-! ## Strings -/

/-- The character of a sequence of UTF-8 bytes. -/
def utf8? (bytes : List Nat) : Option Char :=
  match (String.fromUTF8? ⟨(bytes.map UInt8.ofNat).toArray⟩).map String.toList with
  | some [c] => some c
  | _ => none

/-- Reads the bytes `\xhh` after those that are there, until they are a character; up to `n`. -/
def bytes? : Nat → List Nat → List Char → Option (Char × List Char)
  | 0, _, _ => none
  | n + 1, bytes, cs =>
    match cs with
    | '\\' :: 'x' :: a :: b :: rest => do
      let bytes := bytes ++ [← Text.number? 16 0 [a, b]]
      match utf8? bytes with
      | some c => some (c, rest)
      | none => bytes? n bytes rest
    | _ => none

/-- Reads a character number in braces, of one to six digits. -/
def charNumber? (cs : List Char) : Option (Char × List Char) := do
  let digits := cs.takeWhile (· ≠ '}')
  if digits.isEmpty || digits.length > 6 then none
  else
    let n ← Text.number? 16 0 digits
    match cs.dropWhile (· ≠ '}') with
    | '}' :: rest => if n.isValidChar then some (Char.ofNat n, rest) else none
    | _ => none

/-- Reads an escape that begins at its backslash. -/
def escape? : List Char → Option (Char × List Char)
  | '\\' :: '\'' :: rest => some ('\'', rest)
  | '\\' :: '"' :: rest => some ('"', rest)
  | '\\' :: '\\' :: rest => some ('\\', rest)
  | '\\' :: 'n' :: rest => some ('\n', rest)
  | '\\' :: 'r' :: rest => some ('\r', rest)
  | '\\' :: 't' :: rest => some ('\t', rest)
  | '\\' :: '0' :: rest => some ('\x00', rest)
  | '\\' :: 'u' :: '{' :: rest => charNumber? rest
  | cs@('\\' :: 'x' :: _) => bytes? 4 [] cs
  | _ => none

/-- Reads a string up to its closing quote; each character takes one unit of fuel. -/
def stringWithin? : Nat → List Char → Option (List Char × List Char)
  | 0, _ => none
  | fuel + 1, cs =>
    match cs with
    | [] => none
    | '"' :: rest => some ([], rest)
    | '\\' :: _ => do
      let (c, rest) ← escape? cs
      let (s, rest) ← stringWithin? fuel rest
      some (c :: s, rest)
    | c :: rest => (stringWithin? fuel rest).map fun (s, rest) => (c :: s, rest)

/-- Reads a string after its opening quote. -/
def string? (cs : List Char) : Option (String × List Char) :=
  (stringWithin? (cs.length + 1) cs).map fun (s, rest) => (String.ofList s, rest)

/-- Reads up to the first place where `stop` stands, and passes over it. -/
def upTo? (stop : List Char) : List Char → Option (List Char × List Char)
  | [] => if stop.isEmpty then some ([], []) else none
  | c :: rest =>
    if stop.isPrefixOf (c :: rest) then some ([], (c :: rest).drop stop.length)
    else (upTo? stop rest).map fun (s, rest) => (c :: s, rest)

/-- Reads a raw string after its `r`: as many `#` as close it, and everything between the quotes. -/
def rawString? (cs : List Char) : Option (String × List Char) :=
  let hashes := cs.takeWhile (· = '#')
  match cs.dropWhile (· = '#') with
  | '"' :: rest => (upTo? ('"' :: hashes) rest).map fun (s, rest) => (String.ofList s, rest)
  | _ => none

/-- Reads a character between single quotes, or a byte after its `b`. -/
def char? : List Char → Option (List Char)
  | '\'' :: cs@('\\' :: _) => do
    match ← escape? cs with
    | (_, '\'' :: rest) => some rest
    | _ => none
  | '\'' :: _ :: '\'' :: rest => some rest
  | _ => none

/-! ## Numbers -/

/-- Whether an integer may hold the character, in whatever base. -/
def isIntegerChar (c : Char) : Bool := Text.isHexDigit c || c == '_'

/-- Whether a fraction may hold the character. -/
def isFractionChar (c : Char) : Bool :=
  c.isDigit || c == 'e' || c == 'E' || c == '.' || c == '+' || c == '-' || c == '_'

/-- The bits that a suffix gives an integer, and whether it may be negative. -/
def suffixes : List (String × Nat × Bool) :=
  [("i8", 8, true), ("i16", 16, true), ("i32", 32, true), ("i64", 64, true),
   ("u8", 8, false), ("u16", 16, false), ("u32", 32, false), ("u64", 64, false)]

/-- Whether an integer fits in the given number of bits. -/
def fits (negative : Bool) (n bits : Nat) (signed : Bool) : Bool :=
  if signed then n < Nat.pow 2 (bits - 1) || (negative && n == Nat.pow 2 (bits - 1))
  else n < Nat.pow 2 bits && (!negative || n == 0)

/-- The base that a number is written in, and its digits. -/
def base : List Char → Nat × List Char
  | '0' :: 'b' :: cs => (2, cs)
  | '0' :: 'o' :: cs => (8, cs)
  | '0' :: 'x' :: cs => (16, cs)
  | cs => (10, cs)

/-- Reads an integer after its sign. -/
def integer? (negative : Bool) (cs : List Char) : Option (Ron × List Char) := do
  let (b, cs) := base cs
  let digits := cs.takeWhile isIntegerChar
  let rest := cs.dropWhile isIntegerChar
  if digits.isEmpty || digits.head? == some '_' then none
  else
    let n ← Text.number? b 0 (digits.filter (· ≠ '_'))
    match suffixes.findSome? fun s => (anyWord? [s.1] rest).map (s, ·) with
    | some ((name, bits, signed), rest) =>
      if !fits negative n bits signed then none
      else some (if name == "u64" then .natural n else .other, rest)
    | none =>
      if negative && n ≠ 0 then some (.other, rest)
      else if b == 10 || n < Nat.pow 2 64 then some (.natural n, rest) else none

/-- Whether the characters are a decimal fraction: digits with at most one point, then perhaps an
exponent. -/
def isFraction (cs : List Char) : Bool :=
  let whole := cs.takeWhile Char.isDigit
  let (part, rest) :=
    match cs.dropWhile Char.isDigit with
    | '.' :: rest => (rest.takeWhile Char.isDigit, rest.dropWhile Char.isDigit)
    | rest => ([], rest)
  let exponent :=
    match rest with
    | [] => true
    | e :: rest =>
      let digits :=
        match rest with
        | '+' :: ds | '-' :: ds => ds
        | ds => ds
      (e == 'e' || e == 'E') && !digits.isEmpty && digits.all Char.isDigit
  !(whole.isEmpty && part.isEmpty) && exponent

/-- Reads a fraction after its sign. -/
def fraction? (cs : List Char) : Option (Ron × List Char) :=
  match anyWord? ["inf", "inff32", "inff64", "NaN", "NaNf32", "NaNf64"] cs with
  | some rest => some (.other, rest)
  | none =>
    let digits := cs.takeWhile isFractionChar
    let rest := cs.dropWhile isFractionChar
    if digits.head? != some '_' && isFraction (digits.filter (· ≠ '_')) then
      some (.other, (anyWord? ["f32", "f64"] rest).getD rest)
    else none

/-- Reads a number: as a fraction if one is longer than the integer that begins here, and also where
no integer can be read. -/
def number? (cs : List Char) : Option (Ron × List Char) :=
  let (negative, digits) :=
    match cs with
    | '-' :: rest => (true, rest)
    | '+' :: rest => (false, rest)
    | _ => (false, cs)
  if (digits.takeWhile isIntegerChar).length < (digits.takeWhile isFractionChar).length then
    fraction? digits
  else
    match integer? negative digits with
    | some r => some r
    | none =>
      match base digits with
      | (10, _) => fraction? digits
      | _ => none

/-! ## Values -/

/-- What a list, a tuple or a map is closed by. -/
def endsWith (stop : Char) (cs : List Char) : Option (List Char) :=
  match cs with
  | c :: rest => if c = stop then some rest else none
  | [] => none

/-- Whether fields with names begin here: a name and a colon. -/
def beginsRecord (cs : List Char) : Bool :=
  match name? cs with
  | some (_, rest) => ((blanks? rest).bind List.head?) == some ':'
  | none => false

/-- The words that stand for a value of their own and are never followed by parentheses. -/
def soleWords : List String :=
  ["true", "false", "None", "inf", "inff32", "inff64", "NaN", "NaNf32", "NaNf64"]

mutual

/-- Reads a value that begins at once, nested at most `depth` levels. Each level and each item takes
one unit of fuel. -/
def value? : Nat → Nat → List Char → Option (Ron × List Char)
  | 0, _, _ => none
  | fuel + 1, depth, cs =>
    match name? cs with
    | some ("Some", rest) => do
      match ← blanks? rest with
      | '(' :: rest =>
        if depth = 0 then none
        else
          let (v, rest) ← value? fuel (depth - 1) (← blanks? rest)
          let rest ←
            match ← blanks? rest with
            | ',' :: rest => blanks? rest
            | rest => some rest
          some (.tuple (some "Some") [v], ← endsWith ')' rest)
      | _ => none
    | some (n, rest) =>
      if soleWords.contains n then some (.word n, rest)
      else do
        match ← blanks? rest with
        | '(' :: rest => body? fuel depth (some n) (← blanks? rest)
        | _ => some (.word n, rest)
    | none =>
      match cs with
      | '"' :: rest => (string? rest).map fun (s, rest) => (.text s, rest)
      | 'r' :: rest => (rawString? rest).map fun (s, rest) => (.text s, rest)
      | 'b' :: '"' :: rest => (string? rest).map fun (_, rest) => (.other, rest)
      | 'b' :: 'r' :: rest => (rawString? rest).map fun (_, rest) => (.other, rest)
      | 'b' :: rest => (char? rest).map (.other, ·)
      | '\'' :: _ => (char? cs).map (.other, ·)
      | '(' :: rest => do body? fuel depth none (← blanks? rest)
      | '[' :: rest => do
        if depth = 0 then none
        else
          let (vs, rest) ← items? fuel (depth - 1) ']' (← blanks? rest)
          some (.list vs, rest)
      | '{' :: rest => do
        if depth = 0 then none
        else
          let (es, rest) ← entries? fuel (depth - 1) (← blanks? rest)
          some (.map es, rest)
      | _ => number? cs

/-- Reads what stands in parentheses: fields if they have names, and else values. -/
def body? : Nat → Nat → Option String → List Char → Option (Ron × List Char)
  | 0, _, _, _ => none
  | fuel + 1, depth, name, cs =>
    if depth = 0 then none
    else if beginsRecord cs then
      (fields? fuel (depth - 1) cs).map fun (fs, rest) => (.record name fs, rest)
    else (items? fuel (depth - 1) ')' cs).map fun (vs, rest) => (.tuple name vs, rest)

/-- Reads items up to the closing bracket. -/
def items? : Nat → Nat → Char → List Char → Option (List Ron × List Char)
  | 0, _, _, _ => none
  | fuel + 1, depth, stop, cs =>
    match endsWith stop cs with
    | some rest => some ([], rest)
    | none => do
      if depth = 0 then none
      else
        let (v, rest) ← value? fuel (depth - 1) cs
        match ← blanks? rest with
        | ',' :: rest =>
          let (vs, rest) ← items? fuel depth stop (← blanks? rest)
          some (v :: vs, rest)
        | rest => some ([v], ← endsWith stop rest)

/-- Reads the entries of a map up to its closing brace. -/
def entries? : Nat → Nat → List Char → Option (List (Ron × Ron) × List Char)
  | 0, _, _ => none
  | fuel + 1, depth, cs =>
    match endsWith '}' cs with
    | some rest => some ([], rest)
    | none => do
      if depth = 0 then none
      else
        let (k, rest) ← value? fuel (depth - 1) cs
        let rest ← endsWith ':' (← blanks? rest)
        let (v, rest) ← value? fuel (depth - 1) (← blanks? rest)
        match ← blanks? rest with
        | ',' :: rest =>
          let (es, rest) ← entries? fuel depth (← blanks? rest)
          some ((k, v) :: es, rest)
        | rest => some ([(k, v)], ← endsWith '}' rest)

/-- Reads the fields of a record up to its closing parenthesis. -/
def fields? : Nat → Nat → List Char → Option (List (String × Ron) × List Char)
  | 0, _, _ => none
  | fuel + 1, depth, cs =>
    match endsWith ')' cs with
    | some rest => some ([], rest)
    | none => do
      if depth = 0 then none
      else
        let (k, rest) ← name? cs
        let rest ← endsWith ':' (← blanks? rest)
        let (v, rest) ← value? fuel (depth - 1) (← blanks? rest)
        match ← blanks? rest with
        | ',' :: rest =>
          let (fs, rest) ← fields? fuel depth (← blanks? rest)
          some ((k, v) :: fs, rest)
        | rest => some ([(k, v)], ← endsWith ')' rest)

end

/-! ## Texts -/

/-- What a text can switch on at its beginning. -/
structure Switches where
  /-- A present optional value may stand by itself. -/
  implicitSome : Bool
  /-- A wrapped value stands by itself. -/
  unwrapNewtypes : Bool
  /-- Records and wrapped values have to bear their names. -/
  explicitNames : Bool
deriving DecidableEq

namespace Switches

/-- Nothing switched on. -/
def off : Switches := ⟨false, false, false⟩

/-- Switches on what a name stands for. -/
def enable? (s : Switches) : String → Option Switches
  | "implicit_some" => some { s with implicitSome := true }
  | "unwrap_newtypes" => some { s with unwrapNewtypes := true }
  | "explicit_struct_names" => some { s with explicitNames := true }
  | "unwrap_variant_newtypes" => some s
  | _ => none

/-- Reads names up to the closing parenthesis; a comma may stand after the last one. -/
def names? : Nat → Switches → List Char → Option (Switches × List Char)
  | 0, _, _ => none
  | fuel + 1, s, cs => do
    let (name, rest) ← name? cs
    let s ← s.enable? name
    match ← blanks? rest with
    | ')' :: rest => some (s, rest)
    | ',' :: rest =>
      match ← blanks? rest with
      | ')' :: rest => some (s, rest)
      | rest => names? fuel s rest
    | _ => none

/-- Reads the parts of an attribute one after the other, with the blanks after each. -/
def parts? : List String → List Char → Option (List Char)
  | [], cs => some cs
  | part :: parts, cs => do
    if part.toList.isPrefixOf cs then parts? parts (← blanks? (cs.drop part.length)) else none

/-- Reads attributes such as `#![enable(implicit_some)]`; each takes one unit of fuel. -/
def attributes? : Nat → Switches → List Char → Option (Switches × List Char)
  | 0, _, _ => none
  | fuel + 1, s, cs =>
    match cs with
    | '#' :: _ => do
      let (s, rest) ← s.names? cs.length (← parts? ["#", "!", "[", "enable", "("] cs)
      attributes? fuel s (← parts? ["]"] (← blanks? rest))
    | _ => some (s, cs)

end Switches

/-- The value of a whole text, with what the text switches on. -/
def parse? (text : String) : Option (Switches × Ron) := do
  let (switches, cs) ← Switches.off.attributes? (text.toList.length + 1) (← blanks? text.toList)
  let (v, rest) ← value? (3 * (cs.length + 1)) maxDepth cs
  if (← blanks? rest) = [] then some (switches, v) else none

end Ron

end PetriNets
