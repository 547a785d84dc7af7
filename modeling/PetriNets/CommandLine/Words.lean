import PetriNets.Text.Blank

/-!
# Words of a command line

A line of text as the list of its words, the way a shell splits it: blanks separate words, quotes
keep blanks together, and a backslash takes the next character as it is.
-/

namespace PetriNets.CommandLine

/-- Whether a character between double quotes loses the backslash before it. -/
def isMeta (c : Char) : Bool := c = '$' || c = '\x60' || c = '"' || c = '\\'

/-- Whether a character stands for itself and does not end a word. -/
def isPlain (c : Char) : Bool := !Text.isBlank c && c ≠ '\\' && c ≠ '\'' && c ≠ '"'

/-- Reads up to the closing double quote. A backslash must not stand before the end of a line. -/
def doubleQuoted? : List Char → Option (List Char × List Char)
  | [] => none
  | '"' :: rest => some ([], rest)
  | '\\' :: c :: rest =>
    if c = '\n' then none
    else (doubleQuoted? rest).map fun (s, rest) =>
      (if isMeta c then (c :: s, rest) else ('\\' :: c :: s, rest))
  | c :: rest => if c = '\\' then none else (doubleQuoted? rest).map fun (s, rest) => (c :: s, rest)

/-- Reads up to the closing single quote. -/
def singleQuoted? : List Char → Option (List Char × List Char)
  | [] => none
  | '\'' :: rest => some ([], rest)
  | c :: rest => (singleQuoted? rest).map fun (s, rest) => (c :: s, rest)

/-- Reads the quoted, escaped or plain part of a word that begins at once. A backslash at the end of
a line or of the text stands for itself. -/
def part? : List Char → Option (List Char × List Char)
  | '\'' :: rest => singleQuoted? rest
  | '"' :: rest => doubleQuoted? rest
  | '\\' :: '\n' :: rest => some (['\\'], '\n' :: rest)
  | '\\' :: c :: rest => some ([c], rest)
  | ['\\'] => some (['\\'], [])
  | cs => some (cs.takeWhile isPlain, cs.dropWhile isPlain)

/-- Reads a word to the blank after it, which is passed over too, or to the end of the text. Each
part takes one unit of fuel. -/
def word? : Nat → List Char → Option (List Char × List Char)
  | 0, _ => none
  | fuel + 1, cs => do
    let (s, rest) ← part? cs
    match rest with
    | [] => some (s, [])
    | c :: after =>
      if Text.isBlank c then some (s, after)
      else (word? fuel rest).map fun (more, rest) => (s ++ more, rest)

/-- Reads words to the end of the text; each word takes one unit of fuel. -/
def wordsWithin? : Nat → List Char → Option (List String)
  | 0, _ => none
  | fuel + 1, cs =>
    match cs.dropWhile Text.isBlank with
    | [] => some []
    | cs => do
      let (s, rest) ← word? cs.length cs
      return String.ofList s :: (← wordsWithin? fuel rest)

/-- The words of a line; nothing where a quote is not closed. -/
def words? (line : String) : Option (List String) :=
  wordsWithin? (line.toList.length + 1) line.toList

end PetriNets.CommandLine
