/-!
# Digits

Numbers in decimal and other bases, read off lists of characters.
-/

namespace PetriNets.Text

/-- The value of a digit in base 16 or below. -/
def digit? (c : Char) : Option Nat :=
  if '0' ≤ c ∧ c ≤ '9' then some (c.toNat - '0'.toNat)
  else if 'a' ≤ c ∧ c ≤ 'f' then some (c.toNat - 'a'.toNat + 10)
  else if 'A' ≤ c ∧ c ≤ 'F' then some (c.toNat - 'A'.toNat + 10)
  else none

/-- The number whose digits in the given base, after those of `start`, are the given ones; `none`
where a character is no digit of the base. -/
def number? (base start : Nat) : List Char → Option Nat
  | [] => some start
  | c :: rest =>
    match digit? c with
    | some d => if d < base then number? base (start * base + d) rest else none
    | none => none

/-- The number in decimal. -/
def decimalChars (n : Nat) : List Char := Nat.toDigits 10 n

/-- Whether the character is a digit in base 16. -/
def isHexDigit (c : Char) : Bool := (digit? c).isSome

end PetriNets.Text
