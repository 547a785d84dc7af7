import PetriNets.Extensions
import PetriNets.Graph.Error

/-!
# Directed graphs

A graph owns its nodes, named by texts, and its edges, named by keys; both are listed in the order
in which they came, and taking one out keeps the order of the others. Beside the list of edges every
node keeps the keys of the edges that enter and leave it. An operation that is refused gives an
error and no graph, so the graph it was asked of is as before.
-/

namespace PetriNets

/-- A node: its name, what it is, and its extension table. -/
structure Node (α : Type) where
  id : String
  data : α
  extensions : Extensions
deriving DecidableEq

/-- An edge: its key, what it carries, and its extension table. -/
structure Edge (β : Type) where
  key : EdgeKey
  data : β
  extensions : Extensions
deriving DecidableEq

/-- A node of a graph with the keys of its incoming and outgoing edges. -/
structure Slot (α : Type) where
  node : Node α
  incoming : List EdgeKey
  outgoing : List EdgeKey
deriving DecidableEq

/-- A directed graph with nodes of kind `α` and edges of kind `β`. -/
structure Graph (α β : Type) where
  name : String
  extensions : Extensions
  slots : List (Slot α)
  edges : List (Edge β)
deriving DecidableEq

/-- The node as its copy has it. -/
def Node.copied {α : Type} (n : Node α) : Node α := { n with extensions := n.extensions.copied }

/-- The edge as its copy has it. -/
def Edge.copied {β : Type} (e : Edge β) : Edge β := { e with extensions := e.extensions.copied }

/-- Forgets an edge. -/
def Slot.forget {α : Type} (s : Slot α) (key : EdgeKey) : Slot α :=
  { s with incoming := s.incoming.filter (· ≠ key), outgoing := s.outgoing.filter (· ≠ key) }

/-- Puts a key at the end of those from which it is missing. -/
def EdgeKey.addTo (key : EdgeKey) (keys : List EdgeKey) : List EdgeKey :=
  if keys.contains key then keys else keys ++ [key]

namespace Graph

variable {α β : Type}

/-- A graph without nodes. -/
def empty (name : String) : Graph α β := ⟨name, ∅, [], []⟩

/-- The nodes in the order in which they came. -/
def nodes (g : Graph α β) : List (Node α) := g.slots.map Slot.node

/-- The names of the nodes, in that order. -/
def nodeIds (g : Graph α β) : List String := g.nodes.map Node.id

/-- The slot of a node. -/
def slot? (g : Graph α β) (id : String) : Option (Slot α) := g.slots.find? (·.node.id = id)

/-- Whether the graph has a node of this name. -/
def containsNode (g : Graph α β) (id : String) : Bool := (g.slot? id).isSome

/-- The slot of a node that has to be there. -/
def slot (g : Graph α β) (id : String) : Except GraphError (Slot α) :=
  match g.slot? id with
  | some s => .ok s
  | none => .error (.nodeNotFound id)

/-- The node of a name. -/
def node (g : Graph α β) (id : String) : Except GraphError (Node α) := (g.slot id).map Slot.node

/-- The edge of a key, if there is one. -/
def edge? (g : Graph α β) (key : EdgeKey) : Option (Edge β) := g.edges.find? (·.key = key)

/-- Whether the graph has an edge of this key. -/
def containsEdge (g : Graph α β) (key : EdgeKey) : Bool := (g.edge? key).isSome

/-- The edge of a key. -/
def edge (g : Graph α β) (key : EdgeKey) : Except GraphError (Edge β) :=
  match g.edge? key with
  | some e => .ok e
  | none => .error (.edgeNotFound key)

/-- Adds a node; its name must be new. -/
def insertNode (g : Graph α β) (n : Node α) : Except GraphError (Graph α β) :=
  if g.containsNode n.id then .error (.duplicateNode n.id)
  else .ok { g with slots := g.slots ++ [⟨n, [], []⟩] }

/-- Changes the slot of a node, if there is one. -/
def modifySlot (g : Graph α β) (id : String) (f : Slot α → Slot α) : Graph α β :=
  { g with slots := g.slots.map fun s => if s.node.id = id then f s else s }

/-- Changes what the ends of an edge know of their edges: the source of those that leave it, and
the target of those that enter it. -/
def modifyEnds (g : Graph α β) (key : EdgeKey) (f : List EdgeKey → List EdgeKey) : Graph α β :=
  (g.modifySlot key.source fun s => { s with outgoing := f s.outgoing }).modifySlot key.target
    fun s => { s with incoming := f s.incoming }

/-- Adds an edge; its ends must be there, and its key must be new. -/
def insertEdge (g : Graph α β) (e : Edge β) : Except GraphError (Graph α β) := do
  let _ ← g.slot e.key.source
  let _ ← g.slot e.key.target
  if g.containsEdge e.key then throw (.duplicateEdge e.key)
  return { g with edges := g.edges ++ [e] }.modifyEnds e.key e.key.addTo

/-- Drops an edge of a node that has been taken out, with what its other end knows of it. -/
def dropEdge (id : String) (g : Graph α β) (key : EdgeKey) : Graph α β :=
  if g.containsEdge key then
    let other := if key.source = id then key.target else key.source
    { g with edges := g.edges.filter (·.key ≠ key) }.modifySlot other (·.forget key)
  else
    -- a loop, dropped already as an edge of the other direction
    g

/-- Takes out a node together with every edge that touches it. -/
def removeNode (g : Graph α β) (id : String) : Except GraphError (Node α × Graph α β) := do
  let s ← g.slot id
  let others := { g with slots := g.slots.filter (·.node.id ≠ id) }
  return (s.node, (s.incoming ++ s.outgoing).foldl (dropEdge id) others)

/-- Takes out an edge. -/
def removeEdge (g : Graph α β) (key : EdgeKey) : Except GraphError (Edge β × Graph α β) := do
  let e ← g.edge key
  let others := { g with edges := g.edges.filter (·.key ≠ key) }
  return (e, others.modifyEnds key fun keys => keys.filter (· ≠ key))

/-- Changes what a node is. -/
def modifyData (g : Graph α β) (id : String) (f : α → α) : Graph α β :=
  g.modifySlot id fun s => { s with node := { s.node with data := f s.node.data } }

/-- Changes the extension table of a node. -/
def modifyNodeExtensions (g : Graph α β) (id : String) (f : Extensions → Extensions) :
    Graph α β :=
  g.modifySlot id fun s => { s with node := { s.node with extensions := f s.node.extensions } }

/-- Changes the extension table of an edge. -/
def modifyEdgeExtensions (g : Graph α β) (key : EdgeKey) (f : Extensions → Extensions) :
    Graph α β :=
  { g with edges := g.edges.map fun e =>
      if e.key = key then { e with extensions := f e.extensions } else e }

/-- The edges that enter a node, in the order in which they came. -/
def presetEdges (g : Graph α β) (id : String) : Except GraphError (List (Edge β)) := do
  return (← g.slot id).incoming.filterMap g.edge?

/-- The edges that leave a node, in the order in which they came. -/
def postsetEdges (g : Graph α β) (id : String) : Except GraphError (List (Edge β)) := do
  return (← g.slot id).outgoing.filterMap g.edge?

/-- The nodes that edges come from into a node, each once, in the order of those edges. -/
def preset (g : Graph α β) (id : String) : Except GraphError (List (Node α)) := do
  let sources := ((← g.slot id).incoming.map (·.source)).eraseDups
  return sources.filterMap fun v => (g.slot? v).map Slot.node

/-- The nodes that edges lead to from a node, each once, in the order of those edges. -/
def postset (g : Graph α β) (id : String) : Except GraphError (List (Node α)) := do
  let targets := ((← g.slot id).outgoing.map (·.target)).eraseDups
  return targets.filterMap fun v => (g.slot? v).map Slot.node

/-- The copy of a graph: the same nodes and edges, with the extensions that copies take along. -/
def copied (g : Graph α β) : Graph α β :=
  { g with
    extensions := g.extensions.copied
    slots := g.slots.map fun s => { s with node := s.node.copied }
    edges := g.edges.map Edge.copied }

@[simp] theorem nodeIds_empty (name : String) : (empty name : Graph α β).nodeIds = [] := rfl

end Graph

end PetriNets
