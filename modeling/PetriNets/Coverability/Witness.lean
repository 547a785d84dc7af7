import PetriNets.Marking

/-!
# Witnesses of unboundedness

A proof that a place is unbounded, as something to be played: a sequence that can be fired once and
a cycle that can be fired after it again and again, leaving more tokens on the place each time.
-/

namespace PetriNets

/-- The count as a 64-bit word; `ω` is the greatest one. -/
def Token.word : Token → Nat
  | .finite n => n
  | .omega => maxWord

/-- Firing `lead` reaches the marking `before`; firing `cycle` from there reaches `after`, which
covers `before` and holds more on `place`. -/
structure Witness where
  place : PlaceId
  placeName : String
  lead : List TransitionId
  cycle : List TransitionId
  before : Marking
  after : Marking
deriving DecidableEq

namespace Witness

/-- The tokens that one turn of the cycle adds to the place. -/
def gain (w : Witness) : Nat := (w.after.count w.place).word - (w.before.count w.place).word

/-- How often the cycle has to be turned to leave more than `bound` tokens on the place. -/
def turnsExceeding (w : Witness) (bound : Nat) : Nat :=
  let start := (w.before.count w.place).word
  if bound < start then 0 else (bound - start) / max w.gain 1 + 1

/-- A sequence that leaves more than `bound` tokens on the place. -/
def sequenceExceeding (w : Witness) (bound : Nat) : List TransitionId :=
  w.lead ++ (List.replicate (w.turnsExceeding bound) w.cycle).flatten

/-- The witness in words. -/
def text (w : Witness) : String :=
  s!"place `{w.placeName}` gains {w.gain} token(s) with every repetition of " ++
    Text.bracketed (w.cycle.map Id.text) ++ " after " ++ Text.bracketed (w.lead.map Id.text)

end Witness

end PetriNets
