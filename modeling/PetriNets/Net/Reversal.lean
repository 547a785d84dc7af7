import PetriNets.Net.Basic

/-!
# The reversed net

The same places and transitions with every flow turned around, so that firing forwards in it is
firing backwards in the net.
-/

namespace PetriNets

/-- The flow turned around; it keeps the extensions that copies take along. -/
def Flow.reversed (f : Flow) : Flow :=
  { f with
    key := ⟨f.key.target, f.key.source, none⟩
    extensions := f.extensions.copied }

/-- The place as its copy has it. -/
def Place.copied (p : Place) : Place := { p with extensions := p.extensions.copied }

/-- The transition as its copy has it. -/
def Transition.copied (t : Transition) : Transition :=
  { t with extensions := t.extensions.copied }

/-- The net with every flow turned around: first the places, then the transitions, then the flows,
each in their order. -/
def Net.reversed (net : Net) : Except GraphError Net := do
  let start := (Net.empty net.name).modifyExtensions fun _ => net.extensions.copied
  let withPlaces ← net.places.foldlM
    (fun r p => return (← Net.addPlace r p.copied).2) start
  let withTransitions ← net.transitions.foldlM
    (fun r t => return (← Net.addTransition r t.copied).2) withPlaces
  let graph ← net.flows.foldlM (fun g f => g.insertEdge f.reversed) withTransitions.graph
  return ⟨graph⟩

end PetriNets
