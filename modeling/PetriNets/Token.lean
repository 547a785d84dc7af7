/-!
# Token counts

A place holds finitely many tokens or, in the marking of a coverability graph, arbitrarily many,
written `ω`. Counts are natural numbers; how high a finite count may climb is a `Capacity`, so that
one firing rule serves both the unbounded game and machine words.
-/

namespace PetriNets

/-- What one place holds. -/
inductive Token where
  | finite (count : Nat)
  | omega
deriving DecidableEq

/-- The highest count a place may hold, or `none` where there is no such limit. -/
abbrev Capacity := Option Nat

/-- The highest count that fits in a 64-bit word. -/
def maxWord : Nat := Nat.pow 2 64 - 1

/-- The capacity of a place whose count is kept in a 64-bit word. -/
def Capacity.word : Capacity := some maxWord

/-- Whether a count stays within the capacity. -/
def Capacity.holds : Capacity → Nat → Bool
  | none, _ => true
  | some limit, n => n ≤ limit

@[simp] theorem Capacity.holds_none (n : Nat) : Capacity.holds none n = true := rfl

@[simp] theorem Capacity.holds_some (limit n : Nat) :
    Capacity.holds (some limit) n = decide (n ≤ limit) := rfl

namespace Token

instance : Inhabited Token := ⟨.finite 0⟩

/-- No token at all. -/
def zero : Token := .finite 0

/-- Whether the count is `ω`. -/
def isOmega : Token → Bool
  | .finite _ => false
  | .omega => true

/-- The count, if it is finite. -/
def finite? : Token → Option Nat
  | .finite n => some n
  | .omega => none

/-- Whether an arc of this weight finds the tokens it takes. -/
def covers : Token → Nat → Bool
  | .finite n, w => w ≤ n
  | .omega, _ => true

/-- Puts tokens on the place, as long as its capacity holds them; `ω` stays `ω`. -/
def add? (cap : Capacity) : Token → Nat → Option Token
  | .finite n, w => if cap.holds (n + w) then some (.finite (n + w)) else none
  | .omega, _ => some .omega

/-- Takes tokens off the place, as far as there are enough; `ω` stays `ω`. -/
def sub? : Token → Nat → Option Token
  | .finite n, w => if w ≤ n then some (.finite (n - w)) else none
  | .omega, _ => some .omega

/-- Counts are ordered as numbers, with `ω` above them all. -/
instance : Ord Token where
  compare
    | .finite m, .finite n => compare m n
    | .finite _, .omega => .lt
    | .omega, .finite _ => .gt
    | .omega, .omega => .eq

/-- The larger of two counts. -/
def max (s t : Token) : Token := if compare s t = .lt then t else s

/-- The count in decimal, or `ω`. -/
def text : Token → String
  | .finite n => toString n
  | .omega => "ω"

theorem sub?_isSome (t : Token) (w : Nat) : (t.sub? w).isSome = t.covers w := by
  cases t with
  | finite n => by_cases h : w ≤ n <;> simp [sub?, covers, h]
  | omega => rfl

end Token

end PetriNets
