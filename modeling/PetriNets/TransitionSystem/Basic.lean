import PetriNets.Graph.Basic
import PetriNets.Graph.BreadthFirst

/-!
# Labelled transition systems

A transition system is a graph of states joined by labelled arcs, with at most one initial state.
Two states may be joined by several arcs as long as their labels differ. States can be named by the
system itself: it hands out `s0`, `s1` and so on, passing over names in use and never handing out a
name twice.
-/

namespace PetriNets

/-- A state: a node that is nothing but its name and its extensions. -/
abbrev State := Node Unit

/-- A labelled arc; the label is part of its key. -/
abbrev Arc := Edge Unit

/-- The label of an arc. -/
def Arc.label (a : Arc) : String := a.key.label.getD ""

/-- An arc without extensions. -/
def Arc.between (source target label : String) : Arc := ⟨⟨source, target, some label⟩, (), ∅⟩

/-- The arc on one line. -/
def Arc.shown (a : Arc) : String := s!"Arc({a.key.text})"

/-- A labelled transition system. -/
structure TransitionSystem where
  graph : Graph Unit Unit
  /-- The name of the initial state. -/
  initial : Option String
  /-- The number from which the search for a new name starts. -/
  fresh : Nat
deriving DecidableEq

/-- The least number from `n` on that is not in use; `fuel` bounds how many are in use. -/
def firstFree (used : Nat → Bool) : Nat → Nat → Nat
  | 0, n => n
  | fuel + 1, n => if used n then firstFree used fuel (n + 1) else n

/-- The name of the `n`-th state. -/
def stateName (n : Nat) : String := s!"s{n}"

/-- The first item of a list that stands in it, or among those `seen`, before. -/
def firstRepeated (seen : List String) : List String → Option String
  | [] => none
  | l :: rest => if seen.contains l then some l else firstRepeated (l :: seen) rest

namespace TransitionSystem

/-- A system without states. -/
def empty (name : String) : TransitionSystem := ⟨.empty name, none, 0⟩

/-- The name of the system. -/
def name (ts : TransitionSystem) : String := ts.graph.name

/-- Gives the system another name. -/
def rename (ts : TransitionSystem) (name : String) : TransitionSystem :=
  { ts with graph := { ts.graph with name } }

/-- The extension table of the system. -/
def extensions (ts : TransitionSystem) : Extensions := ts.graph.extensions

/-- Changes the extension table of the system. -/
def modifyExtensions (ts : TransitionSystem) (f : Extensions → Extensions) : TransitionSystem :=
  { ts with graph := { ts.graph with extensions := f ts.graph.extensions } }

/-- The states, in order. -/
def states (ts : TransitionSystem) : List State := ts.graph.nodes

/-- The names of the states, in order. -/
def stateIds (ts : TransitionSystem) : List String := ts.graph.nodeIds

/-- The arcs, in order. -/
def arcs (ts : TransitionSystem) : List Arc := ts.graph.edges

/-- The number of states. -/
def stateCount (ts : TransitionSystem) : Nat := ts.states.length

/-- The number of arcs. -/
def arcCount (ts : TransitionSystem) : Nat := ts.arcs.length

/-- Whether there is a state of this name. -/
def containsState (ts : TransitionSystem) (id : String) : Bool := ts.graph.containsNode id

/-- The state of a name. -/
def state (ts : TransitionSystem) (id : String) : Except GraphError State := ts.graph.node id

/-- The initial state. -/
def initialState? (ts : TransitionSystem) : Option State :=
  ts.initial.bind fun id => (ts.graph.slot? id).map Slot.node

/-- Whether this is the initial state. -/
def isInitial (ts : TransitionSystem) (s : State) : Bool := ts.initial = some s.id

/-- A state on one line. -/
def shown (ts : TransitionSystem) (s : State) : String :=
  if ts.isInitial s then s!"State({s.id}, initial)" else s!"State({s.id})"

/-- Adds a state of the given name. -/
def addState (ts : TransitionSystem) (s : State) : Except GraphError TransitionSystem :=
  return { ts with graph := ← ts.graph.insertNode s }

/-- The number that the next state named by the system gets. -/
def nextFresh (ts : TransitionSystem) : Nat :=
  firstFree (fun n => ts.containsState (stateName n)) ts.stateCount ts.fresh

/-- Adds a state of the given name, or of a new one, and tells its name. -/
def createState (ts : TransitionSystem) (id : Option String) :
    Except GraphError (String × TransitionSystem) :=
  match id with
  | some id => do return (id, ← ts.addState ⟨id, (), ∅⟩)
  | none => do
    let n := ts.nextFresh
    return (stateName n, ← { ts with fresh := n + 1 }.addState ⟨stateName n, (), ∅⟩)

/-- Adds an arc. -/
def addArc (ts : TransitionSystem) (a : Arc) : Except GraphError TransitionSystem :=
  return { ts with graph := ← ts.graph.insertEdge a }

/-- Adds an arc without extensions. -/
def createArc (ts : TransitionSystem) (source target label : String) :
    Except GraphError TransitionSystem := ts.addArc (.between source target label)

/-- Takes out a state and every arc that touches it. -/
def removeState (ts : TransitionSystem) (id : String) :
    Except GraphError (State × TransitionSystem) := do
  let (s, graph) ← ts.graph.removeNode id
  return (s, { ts with graph, initial := if ts.initial = some id then none else ts.initial })

/-- The arc of the given ends and label. -/
def arc (ts : TransitionSystem) (source target label : String) : Except GraphError Arc :=
  ts.graph.edge ⟨source, target, some label⟩

/-- Takes out an arc. -/
def removeArc (ts : TransitionSystem) (source target label : String) :
    Except GraphError (Arc × TransitionSystem) := do
  let (a, graph) ← ts.graph.removeEdge ⟨source, target, some label⟩
  return (a, { ts with graph })

/-- Makes a state the only initial one. -/
def setInitialState (ts : TransitionSystem) (id : String) : Except GraphError TransitionSystem := do
  let _ ← ts.graph.node id
  return { ts with initial := some id }

/-- Changes the extension table of a state. -/
def modifyStateExtensions (ts : TransitionSystem) (id : String) (f : Extensions → Extensions) :
    Except GraphError TransitionSystem := do
  let _ ← ts.graph.node id
  return { ts with graph := ts.graph.modifyNodeExtensions id f }

/-- Changes the extension table of an arc. -/
def modifyArcExtensions (ts : TransitionSystem) (source target label : String)
    (f : Extensions → Extensions) : Except GraphError TransitionSystem := do
  let _ ← ts.arc source target label
  return { ts with graph := ts.graph.modifyEdgeExtensions ⟨source, target, some label⟩ f }

/-- The copy of the system, with the extensions that copies take along. -/
def copied (ts : TransitionSystem) : TransitionSystem := { ts with graph := ts.graph.copied }

/-! ## Questions -/

/-- The arcs that leave a state, in order; none where there is no such state. -/
def outgoing (ts : TransitionSystem) (id : String) : List Arc :=
  (ts.graph.postsetEdges id).toOption.getD []

/-- The labels in use, each once, in order. -/
def alphabet (ts : TransitionSystem) : List String :=
  (ts.arcs.map Arc.label).eraseDups.mergeSort fun a b => decide (a ≤ b)

/-- The states to which arcs of the given label lead from a state. -/
def postByLabel (ts : TransitionSystem) (id label : String) : Except GraphError (List State) := do
  let arcs : List Arc ← ts.graph.postsetEdges id
  (arcs.filter fun a => a.label = label).mapM fun a => ts.graph.node a.key.target

/-- The first state that two arcs of one label leave, with the label of the first of its arcs that
repeats the label of an earlier one. -/
def nondeterminism? (ts : TransitionSystem) : Option (State × String) :=
  ts.states.findSome? fun s =>
    (firstRepeated [] ((ts.outgoing s.id).map Arc.label)).map (s, ·)

/-- Whether no two arcs of one label leave the same state. -/
def isDeterministic (ts : TransitionSystem) : Bool := ts.nondeterminism?.isNone

/-- The states to which arcs lead from a state. -/
def successors (ts : TransitionSystem) (id : String) : List String :=
  (ts.outgoing id).map (·.key.target)

/-- The states from which arcs lead to a state. -/
def predecessors (ts : TransitionSystem) (id : String) : List String :=
  ((ts.graph.presetEdges id).toOption.getD []).map (·.key.source)

/-- The states that can be reached from the initial one, nearest first. -/
def reachableStates (ts : TransitionSystem) : List String :=
  match ts.initialState? with
  | some s => breadthFirst ts.successors ts.stateCount s.id
  | none => []

end TransitionSystem

end PetriNets
