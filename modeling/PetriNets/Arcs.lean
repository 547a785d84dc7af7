import PetriNets.Marking

/-!
# The firing rule

`Arcs` holds what one transition takes and gives: two rows of places with weights. Firing takes the
whole first row and then gives the whole second one; firing backwards swaps the rows. A step fails
at the first place that has too few tokens, or else at the first one whose capacity overflows.
-/

namespace PetriNets

/-- Places with the weights of the arcs that join them to one transition. -/
abbrev Row := List (PlaceId × Nat)

/-- Why a marking could not be transformed. -/
inductive StepFault where
  /-- The place holds fewer tokens than the arc takes. -/
  | starved (place : PlaceId) (required : Nat) (available : Token)
  /-- The place cannot hold the tokens it is given. -/
  | overflow (place : PlaceId)
deriving DecidableEq

/-- Takes the tokens of a row, one arc after the other. -/
def Row.take : Row → Marking → Except StepFault Marking
  | [], m => .ok m
  | (p, w) :: row, m =>
    match (m.count p).sub? w with
    | some t => Row.take row (m.set p t)
    | none => .error (.starved p w (m.count p))

/-- Gives the tokens of a row, one arc after the other. -/
def Row.give (cap : Capacity) : Row → Marking → Except StepFault Marking
  | [], m => .ok m
  | (p, w) :: row, m =>
    match (m.count p).add? cap w with
    | some t => Row.give cap row (m.set p t)
    | none => .error (.overflow p)

/-- The weight that a row puts on a place. -/
def Row.weight (row : Row) (p : PlaceId) : Nat :=
  ((row.filter fun e => e.1 = p).map Prod.snd).foldr (· + ·) 0

/-- Whether the marking holds what each arc of the row takes. -/
def Row.isCovered (row : Row) (m : Marking) : Bool := row.all fun e => (m.count e.1).covers e.2

/-- The weighted arcs of one transition: `pre` is taken when it fires, `post` is given. -/
structure Arcs where
  pre : Row
  post : Row
deriving DecidableEq

namespace Arcs

/-- The arcs turned around. -/
def reverse (a : Arcs) : Arcs := ⟨a.post, a.pre⟩

/-- Whether the marking holds what the transition takes. -/
def isEnabled (a : Arcs) (m : Marking) : Bool := a.pre.isCovered m

/-- Whether the marking holds what the transition would have given. -/
def isReverseEnabled (a : Arcs) (m : Marking) : Bool := a.reverse.isEnabled m

/-- One step: takes `pre`, then gives `post`. -/
def fire (cap : Capacity) (a : Arcs) (m : Marking) : Except StepFault Marking := do
  a.post.give cap (← a.pre.take m)

/-- One step backwards: takes `post`, then gives `pre`. -/
def reverseFire (cap : Capacity) (a : Arcs) (m : Marking) : Except StepFault Marking :=
  a.reverse.fire cap m

/-- The change that one firing makes to a place. -/
def change (a : Arcs) (p : PlaceId) : Int := (a.post.weight p : Int) - (a.pre.weight p : Int)

/-- The places that the arcs touch, each once, in order. -/
def places (a : Arcs) : List PlaceId :=
  let touched := ((a.pre ++ a.post).map fun e => e.1.index).eraseDups
  (touched.mergeSort fun i j => decide (i ≤ j)).map Id.mk

/-- The places that one firing changes, with the change, in place order. -/
def effect (a : Arcs) : List (PlaceId × Int) :=
  (a.places.map fun p => (p, a.change p)).filter fun e => e.2 ≠ 0

@[simp] theorem reverse_reverse (a : Arcs) : a.reverse.reverse = a := rfl

theorem change_reverse (a : Arcs) (p : PlaceId) : a.reverse.change p = -a.change p := by
  simp only [change, reverse]; omega

end Arcs

end PetriNets
