import PetriNets.Text.Visible

/-!
# Quoted text

Text between double quotes, in which every character is visible: the quote, the backslash, the tab,
the line ends and the character zero are written as a backslash and a letter, and whatever else has
no form of its own is written by its number, as in `\u{1f}`.
-/

namespace PetriNets.Text

/-- A character by its number: `\u{1f}`. -/
def numbered (c : Char) : List Char :=
  ['\\', 'u', '{'] ++ Nat.toDigits 16 c.toNat ++ ['}']

/-- How a character is written between quotes. -/
def escaped (c : Char) : List Char :=
  match c with
  | '\x00' => ['\\', '0']
  | '\t' => ['\\', 't']
  | '\r' => ['\\', 'r']
  | '\n' => ['\\', 'n']
  | '\\' => ['\\', '\\']
  | '"' => ['\\', '"']
  | _ => if isVisible c then [c] else numbered c

/-- The characters of a text between quotes. -/
def quotedChars (s : List Char) : List Char := '"' :: s.flatMap escaped ++ ['"']

/-- The text between quotes. -/
def quoted (s : String) : String := String.ofList (quotedChars s.toList)

/-- The text between quotes, with every apostrophe escaped as well: the form of paths. -/
def fullyQuoted (s : String) : String :=
  let chars := s.toList.flatMap fun c => if c = '\'' then ['\\', '\''] else escaped c
  String.ofList ('"' :: chars ++ ['"'])

end PetriNets.Text
