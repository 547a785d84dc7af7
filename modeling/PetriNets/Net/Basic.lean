import PetriNets.Graph.Basic

/-!
# Place/transition nets

A net is a graph whose nodes are places, which hold tokens, and transitions, which carry labels, and
whose edges are weighted flows that join a place and a transition. Places and transitions share one
space of names. The places in the order in which they came are numbered from zero, and so are the
transitions; markings are addressed by these numbers.
-/

namespace PetriNets

/-- What a node of a net is. -/
inductive Element where
  /-- A place with the tokens it holds initially. -/
  | place (tokens : Nat)
  /-- A transition with its label. -/
  | transition (label : String)
deriving DecidableEq

/-- Whether the node is a place. -/
def Element.isPlace : Element → Bool
  | place _ => true
  | transition _ => false

/-- A place of a net. -/
structure Place where
  id : String
  tokens : Nat
  extensions : Extensions
deriving DecidableEq

/-- A transition of a net. -/
structure Transition where
  id : String
  label : String
  extensions : Extensions
deriving DecidableEq

/-- A flow of a net: an edge that carries its weight. -/
abbrev Flow := Edge Nat

/-- A flow from `source` to `target` without extensions. -/
def Flow.between (source target : String) (weight : Nat) : Flow :=
  ⟨⟨source, target, none⟩, weight, ∅⟩

/-- The node as a place. -/
def Node.asPlace? (n : Node Element) : Option Place :=
  match n.data with
  | .place tokens => some ⟨n.id, tokens, n.extensions⟩
  | .transition _ => none

/-- The node as a transition. -/
def Node.asTransition? (n : Node Element) : Option Transition :=
  match n.data with
  | .place _ => none
  | .transition label => some ⟨n.id, label, n.extensions⟩

/-- The node that a place is. -/
def Place.node (p : Place) : Node Element := ⟨p.id, .place p.tokens, p.extensions⟩

/-- The node that a transition is. -/
def Transition.node (t : Transition) : Node Element := ⟨t.id, .transition t.label, t.extensions⟩

@[simp] theorem Place.asPlace?_node (p : Place) : p.node.asPlace? = some p := rfl

@[simp] theorem Transition.asTransition?_node (t : Transition) :
    t.node.asTransition? = some t := rfl

/-- A place/transition net. -/
structure Net where
  graph : Graph Element Nat
deriving DecidableEq

namespace Net

/-- A net without nodes. -/
def empty (name : String) : Net := ⟨.empty name⟩

/-- The name of the net. -/
def name (net : Net) : String := net.graph.name

/-- Gives the net another name. -/
def rename (net : Net) (name : String) : Net := ⟨{ net.graph with name }⟩

/-- The extension table of the net. -/
def extensions (net : Net) : Extensions := net.graph.extensions

/-- Changes the extension table of the net. -/
def modifyExtensions (net : Net) (f : Extensions → Extensions) : Net :=
  ⟨{ net.graph with extensions := f net.graph.extensions }⟩

/-- The places, in order. -/
def places (net : Net) : List Place := net.graph.nodes.filterMap Node.asPlace?

/-- The transitions, in order. -/
def transitions (net : Net) : List Transition := net.graph.nodes.filterMap Node.asTransition?

/-- The flows, in order. -/
def flows (net : Net) : List Flow := net.graph.edges

/-- The names of the places, in order. -/
def placeIds (net : Net) : List String := net.places.map Place.id

/-- The names of the transitions, in order. -/
def transitionIds (net : Net) : List String := net.transitions.map Transition.id

/-- The number of places. -/
def placeCount (net : Net) : Nat := net.places.length

/-- The number of transitions. -/
def transitionCount (net : Net) : Nat := net.transitions.length

/-- The number of a place, if there is one of this name. -/
def placeIndex? (net : Net) (id : String) : Option PlaceId := (net.placeIds.idxOf? id).map Id.mk

/-- The number of a transition, if there is one of this name. -/
def transitionIndex? (net : Net) (id : String) : Option TransitionId :=
  (net.transitionIds.idxOf? id).map Id.mk

/-- The number of the place of this name. -/
def placeIndex (net : Net) (id : String) : Except GraphError PlaceId :=
  match net.placeIndex? id with
  | some p => .ok p
  | none => .error (if net.graph.containsNode id then .notAPlace id else .nodeNotFound id)

/-- The number of the transition of this name. -/
def transitionIndex (net : Net) (id : String) : Except GraphError TransitionId :=
  match net.transitionIndex? id with
  | some t => .ok t
  | none => .error (if net.graph.containsNode id then .notATransition id else .nodeNotFound id)

/-- The place of a number. -/
def placeAt? (net : Net) (p : PlaceId) : Option Place := net.places[p.index]?

/-- The transition of a number. -/
def transitionAt? (net : Net) (t : TransitionId) : Option Transition :=
  net.transitions[t.index]?

/-- The name of the place of a number; past the end the number itself. -/
def placeName (net : Net) (p : PlaceId) : String := (net.placeIds[p.index]?).getD p.text

/-- The name of the transition of a number; past the end the number itself. -/
def transitionName (net : Net) (t : TransitionId) : String :=
  (net.transitionIds[t.index]?).getD t.text

/-- The place of a name. -/
def place (net : Net) (id : String) : Except GraphError Place := do
  match (← net.graph.node id).asPlace? with
  | some p => .ok p
  | none => .error (.notAPlace id)

/-- The transition of a name. -/
def transition (net : Net) (id : String) : Except GraphError Transition := do
  match (← net.graph.node id).asTransition? with
  | some t => .ok t
  | none => .error (.notATransition id)

/-- The flow from one node to another. -/
def flow (net : Net) (source target : String) : Except GraphError Flow :=
  net.graph.edge ⟨source, target, none⟩

/-- Adds a place, which gets the next number. -/
def addPlace (net : Net) (p : Place) : Except GraphError (PlaceId × Net) := do
  return (⟨net.placeCount⟩, ⟨← net.graph.insertNode p.node⟩)

/-- Adds a transition, which gets the next number. -/
def addTransition (net : Net) (t : Transition) : Except GraphError (TransitionId × Net) := do
  return (⟨net.transitionCount⟩, ⟨← net.graph.insertNode t.node⟩)

/-- Adds an empty place. -/
def createPlace (net : Net) (id : String) : Except GraphError (PlaceId × Net) :=
  net.addPlace ⟨id, 0, ∅⟩

/-- Adds a transition that is labelled with its name. -/
def createTransition (net : Net) (id : String) : Except GraphError (TransitionId × Net) :=
  net.addTransition ⟨id, id, ∅⟩

/-- Adds a flow between a place and a transition, in either direction. -/
def addFlow (net : Net) (f : Flow) : Except GraphError Net := do
  let source := f.key.source
  let target := f.key.target
  if f.data = 0 then throw (.invalidWeight source target f.data)
  let s ← net.graph.node source
  let t ← net.graph.node target
  if s.data.isPlace = t.data.isPlace then throw (.illegalFlow source target)
  return ⟨← net.graph.insertEdge f⟩

/-- Adds a flow without extensions. -/
def createFlow (net : Net) (source target : String) (weight : Nat) : Except GraphError Net :=
  net.addFlow (.between source target weight)

/-- Takes out a flow. -/
def removeFlow (net : Net) (source target : String) : Except GraphError (Flow × Net) := do
  let (f, g) ← net.graph.removeEdge ⟨source, target, none⟩
  return (f, ⟨g⟩)

/-- Takes out a place or a transition and every flow that touches it. What came after it moves down
by one number. -/
def removeNode (net : Net) (id : String) : Except GraphError (Node Element × Net) := do
  let (n, g) ← net.graph.removeNode id
  return (n, ⟨g⟩)

/-- Changes the initial tokens of a place. -/
def setTokens (net : Net) (id : String) (tokens : Nat) : Except GraphError Net := do
  let _ ← net.place id
  return ⟨net.graph.modifyData id fun _ => .place tokens⟩

/-- Changes the label of a transition. -/
def setLabel (net : Net) (id : String) (label : String) : Except GraphError Net := do
  let _ ← net.transition id
  return ⟨net.graph.modifyData id fun _ => .transition label⟩

/-- Changes the extension table of a place. -/
def modifyPlaceExtensions (net : Net) (id : String) (f : Extensions → Extensions) :
    Except GraphError Net := do
  let _ ← net.place id
  return ⟨net.graph.modifyNodeExtensions id f⟩

/-- Changes the extension table of a transition. -/
def modifyTransitionExtensions (net : Net) (id : String) (f : Extensions → Extensions) :
    Except GraphError Net := do
  let _ ← net.transition id
  return ⟨net.graph.modifyNodeExtensions id f⟩

/-- Changes the extension table of a flow. -/
def modifyFlowExtensions (net : Net) (source target : String) (f : Extensions → Extensions) :
    Except GraphError Net := do
  let _ ← net.flow source target
  return ⟨net.graph.modifyEdgeExtensions ⟨source, target, none⟩ f⟩

/-- The copy of the net: the same places, transitions and flows, with the extensions that copies
take along. -/
def copied (net : Net) : Net := ⟨net.graph.copied⟩

/-- The tokens that the places hold initially. -/
def initialMarking (net : Net) : Marking := .ofCounts (net.places.map Place.tokens)

/-- The marking with the given counts on the given places, and nothing on the others. -/
def markingOf (net : Net) (counts : List (String × Nat)) : Except GraphError Marking :=
  counts.foldlM (fun m e => return m.set (← net.placeIndex e.1) (.finite e.2))
    (.zero net.placeCount)

/-- What a marking puts on the place of a name. -/
def tokensOn (net : Net) (m : Marking) (id : String) : Except GraphError Token :=
  return m.count (← net.placeIndex id)

end Net

/-! ## Shown forms -/

/-- The place on one line. -/
def Place.shown (p : Place) : String :=
  s!"Place \x7b id: {Text.quoted p.id}, initial_tokens: {p.tokens} \x7d"

/-- The transition on one line. -/
def Transition.shown (t : Transition) : String :=
  s!"Transition({Text.quoted t.id}, {Text.quoted t.label})"

/-- The flow on one line. -/
def Flow.shown (f : Flow) : String :=
  "Flow \x7b source: " ++ Text.quoted f.key.source ++ ", target: " ++ Text.quoted f.key.target ++
    s!", weight: {f.data} \x7d"

/-- The node on one line, with its kind. -/
def Node.shown (n : Node Element) : String :=
  match n.data with
  | .place tokens => "Place(" ++ (Place.mk n.id tokens n.extensions).shown ++ ")"
  | .transition label => "Transition(" ++ (Transition.mk n.id label n.extensions).shown ++ ")"

end PetriNets
