import PetriNets.Coverability.Witness

/-!
# Acceleration

What distinguishes a coverability graph from a reachability graph. A marking that has been reached
along a `Trail` of earlier ones and covers one of them strictly can be reached again with ever more
tokens where it grew, so there it is given `ω`. While no `ω` has occurred on a trail its transitions
are a firing sequence, and what is cut out of it between the two markings is a witness.
-/

namespace PetriNets

/-- A step down the spanning tree of an exploration: the node that was left, its marking, and the
transition that was fired there. -/
structure TreeStep where
  source : NodeId
  marking : Marking
  transition : TransitionId
deriving DecidableEq

/-- The steps that lead to a node, the last one first. -/
abbrev Trail := List TreeStep

/-- The transitions of a trail in the order in which they were fired. -/
def Trail.transitions (trail : Trail) : List TransitionId :=
  (List.map TreeStep.transition trail).reverse

/-- Gives `ω` to the places where a marking grew over one that it covers strictly. -/
def Marking.accelerateOver (m before : Marking) : Marking :=
  if m.strictlyCovers before then
    ⟨List.zipWith (fun s t => if compare s t = .lt then .omega else t) before.tokens m.tokens⟩
  else m

/-- One pass over all markings of a trail, the last one first. -/
def Marking.acceleratePass (m : Marking) (trail : Trail) : Marking :=
  List.foldl (fun m s => m.accelerateOver s.marking) m trail

/-- Passes until nothing changes any more, at most as many as there is fuel. -/
def Marking.accelerateWithin (trail : Trail) : Nat → Marking → Marking
  | 0, m => m
  | fuel + 1, m =>
    let next := m.acceleratePass trail
    if next = m then m else accelerateWithin trail fuel next

/-- Passes over the trail until nothing changes any more. Each pass but the last one gives some place
`ω`, so there is at most one more pass than there are places. -/
def Marking.accelerate (m : Marking) (trail : Trail) : Marking :=
  m.accelerateWithin trail (m.size + 1)

/-- The places on which the second marking holds more than the first one, in order. -/
def Marking.grownPlaces (before after : Marking) : List PlaceId :=
  before.places.filter fun p => compare (before.count p) (after.count p) = .lt

/-- The witnesses that a finite marking gives which has been fired at the end of a trail: one for
each place without a witness so far that grew over a marking of the trail which it covers strictly.
The last markings of the trail come first. -/
def newWitnesses (nameOf : PlaceId → String) (known : List Witness) (trail : Trail)
    (fired : Marking) : List Witness :=
  if fired.hasOmega then []
  else
    (List.range trail.length).zip trail |>.foldl (fun found (distance, step) =>
      if fired.strictlyCovers step.marking then
        let witnessed := (known ++ found).map Witness.place
        let places := (step.marking.grownPlaces fired).filter fun p => !witnessed.contains p
        found ++ places.map fun p => {
          place := p
          placeName := nameOf p
          lead := Trail.transitions (trail.drop (distance + 1))
          cycle := Trail.transitions (trail.take (distance + 1))
          before := step.marking
          after := fired }
      else found) []

end PetriNets
