import PetriNets.Coverability.Graph

/-!
# Boundedness

A net is bounded if there is a number that no place ever exceeds. Whether it is, and which places
are at fault where it is not, is read off its coverability graph.
-/

namespace PetriNets

/-- Whether a net is bounded. -/
inductive Boundedness where
  /-- No place ever holds more than `bound` tokens. -/
  | bounded (bound : Nat)
  /-- The places that can hold arbitrarily many tokens, and the first witness. -/
  | unbounded (places : List PlaceId) (witness : Witness)
deriving DecidableEq

/-- Whether a place is bounded. -/
inductive PlaceBound where
  | bounded (bound : Nat)
  /-- With a witness, if a single cycle feeds the place. -/
  | unbounded (witness : Option Witness)
deriving DecidableEq

namespace Boundedness

/-- Whether there is a bound. -/
def isBounded : Boundedness → Bool
  | bounded _ => true
  | unbounded _ _ => false

/-- The answer in words. -/
def text : Boundedness → String
  | bounded bound => s!"bounded ({bound}-bounded)"
  | unbounded places witness =>
    "unbounded, places " ++ Text.bracketed (places.map Id.text) ++ "; witness: " ++ witness.text

end Boundedness

namespace CoverabilityGraph

/-- Whether the net of the graph is bounded. -/
def boundedness (g : CoverabilityGraph) : Boundedness :=
  match g.witnesses.head? with
  | some w => .unbounded g.unboundedPlaces w
  | none => .bounded g.largestCount

/-- Whether a place is bounded. -/
def boundOf (g : CoverabilityGraph) (p : PlaceId) : PlaceBound :=
  match g.placeBound p with
  | .finite n => .bounded n
  | .omega => .unbounded (g.witnessFor? p)

end CoverabilityGraph

namespace Net

/-- Whether the net is bounded. -/
def checkBounded (config : AnalysisConfig) (net : Net) : Except AnalysisError Boundedness :=
  return (← CoverabilityGraph.build config net).boundedness

/-- Whether the net is bounded, found in at most as many rounds as given. -/
def checkBoundedWithin (rounds : Nat) (config : AnalysisConfig) (net : Net) :
    Except AnalysisError Boundedness :=
  return (← CoverabilityGraph.buildWithin rounds config net).boundedness

/-- Whether the place of a name is bounded, on the graph that `explore` gives. -/
def checkPlaceOn (explore : Net → Except AnalysisError CoverabilityGraph) (net : Net)
    (place : String) : Except AnalysisError PlaceBound := do
  let p ← (net.placeIndex place).mapError .graph
  return (← explore net).boundOf p

/-- Whether the place of a name is bounded. -/
def checkPlaceBounded (config : AnalysisConfig) (net : Net) (place : String) :
    Except AnalysisError PlaceBound := net.checkPlaceOn (CoverabilityGraph.build config) place

/-- Whether the place of a name is bounded, found in at most as many rounds as given. -/
def checkPlaceBoundedWithin (rounds : Nat) (config : AnalysisConfig) (net : Net) (place : String) :
    Except AnalysisError PlaceBound :=
  net.checkPlaceOn (CoverabilityGraph.buildWithin rounds config) place

end Net

end PetriNets
