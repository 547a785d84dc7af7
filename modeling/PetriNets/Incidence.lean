import PetriNets.Arcs
import PetriNets.Table

/-!
# Incidence

The arcs of all transitions of a net by number alone: what an exploration needs to know of the net.
-/

namespace PetriNets

/-- The number of places of a net and the arcs of each of its transitions. -/
structure Incidence where
  places : Nat
  arcs : Table 't' Arcs
deriving DecidableEq

namespace Incidence

/-- The transitions that the marking enables, with their arcs, in order. -/
def enabledArcs (inc : Incidence) (m : Marking) : List (TransitionId × Arcs) :=
  inc.arcs.entries.filter fun e => e.2.isEnabled m

/-- The transitions that the marking enables, in order. -/
def enabled (inc : Incidence) (m : Marking) : List TransitionId :=
  (inc.enabledArcs m).map Prod.fst

end Incidence

end PetriNets
