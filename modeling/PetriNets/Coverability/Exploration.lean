import PetriNets.Config
import PetriNets.Coverability.Acceleration
import PetriNets.Incidence

/-!
# Exploration

The markings of a net are explored from the initial one: a node is taken off the list of waiting
ones, every transition that its marking enables is fired, and what comes out is accelerated along the
trail of the node and looked up among the nodes there are. Equal markings share a node, so the result
is a graph, spanned by the tree of the steps in which its nodes were found.

Before each node the exploration asks whether it may go on. It is given the number of times that the
answer is yes; this number is at once the reason why `Problem.run` ends.
-/

namespace PetriNets

/-- Whether a node has been expanded, and with which enabled transitions. -/
inductive NodeStatus where
  | waiting
  | expanded (enabled : List TransitionId)
deriving DecidableEq

/-- A node of a coverability graph. -/
structure CoverNode where
  marking : Marking
  /-- The steps in which it was found. -/
  trail : Trail
  status : NodeStatus
deriving DecidableEq

/-- An edge of a coverability graph. -/
structure CoverEdge where
  source : NodeId
  target : NodeId
  transition : TransitionId
deriving DecidableEq

/-- What is explored, and under which rules. -/
structure Problem where
  incidence : Incidence
  initial : Marking
  placeName : PlaceId → String
  capacity : Capacity
  order : ExplorationOrder
  stateLimit : Option Nat

/-- Why an exploration stopped before its end. -/
inductive Halt where
  | cancelled
  | stateLimit (limit : Nat)
  | fault (transition : TransitionId) (fault : StepFault)
deriving DecidableEq

/-- How far an exploration has come. -/
structure Exploration where
  nodes : Table 'n' CoverNode
  edges : Array CoverEdge
  witnesses : List Witness
  /-- The nodes that wait, the next one first. -/
  waiting : List NodeId
deriving DecidableEq

/-- The transitions that a node enables, once it has been expanded. -/
def CoverNode.enabled (n : CoverNode) : List TransitionId :=
  match n.status with
  | .waiting => []
  | .expanded enabled => enabled

/-- The node from which a node was found, with the transition. -/
def CoverNode.parent? (n : CoverNode) : Option (NodeId × TransitionId) :=
  n.trail.head?.map fun s => (s.source, s.transition)

/-- Adds a node to those that wait. -/
def ExplorationOrder.wait (order : ExplorationOrder) (id : NodeId) (waiting : List NodeId) :
    List NodeId :=
  match order with
  | breadthFirst => waiting ++ [id]
  | depthFirst => id :: waiting

namespace Exploration

/-- The beginning: one node, which waits. -/
def start (initial : Marking) : Exploration where
  nodes := Table.empty.push ⟨initial, [], .waiting⟩
  edges := #[]
  witnesses := []
  waiting := [⟨0⟩]

/-- The node of a marking, if it has been found. -/
def find? (x : Exploration) (m : Marking) : Option NodeId :=
  (x.nodes.toList.findIdx? fun n => n.marking = m).map Id.mk

/-- The node of a marking; a new one is added to those that wait, unless there are too many. -/
def visit (p : Problem) (x : Exploration) (m : Marking) (trail : Trail) :
    Except Halt (NodeId × Exploration) :=
  match x.find? m with
  | some id => .ok (id, x)
  | none =>
    match p.stateLimit.filter fun limit => limit ≤ x.nodes.size with
    | some limit => .error (.stateLimit limit)
    | none =>
      let id := x.nodes.nextId
      .ok (id, { x with
        nodes := x.nodes.push ⟨m, trail, .waiting⟩
        waiting := p.order.wait id x.waiting })

/-- Fires one transition at a node and adds the edge to what comes out. -/
def follow (p : Problem) (id : NodeId) (node : CoverNode) (x : Exploration)
    (step : TransitionId × Arcs) : Except Halt Exploration := do
  let fired ← (step.2.fire p.capacity node.marking).mapError (.fault step.1)
  let trail := ⟨id, node.marking, step.1⟩ :: node.trail
  let found := newWitnesses p.placeName x.witnesses trail fired
  let (target, x) ← visit p { x with witnesses := x.witnesses ++ found } (fired.accelerate trail)
    trail
  return { x with edges := x.edges.push ⟨id, target, step.1⟩ }

/-- Fires every enabled transition at a node, in order. -/
def expand (p : Problem) (x : Exploration) (id : NodeId) : Except Halt Exploration :=
  match x.nodes.get? id with
  | none => .ok x
  | some node => do
    let enabled := p.incidence.enabledArcs node.marking
    let x ← enabled.foldlM (follow p id node) x
    return { x with
      nodes := x.nodes.set id { node with status := .expanded (enabled.map Prod.fst) } }

/-- Goes on until no node waits, or until it is told to stop: after as many rounds as given. -/
def run (p : Problem) : Nat → Exploration → Except Halt Exploration
  | 0, _ => .error .cancelled
  | rounds + 1, x =>
    match x.waiting with
    | [] => .ok x
    | id :: waiting => do run p rounds (← expand p { x with waiting } id)

end Exploration

namespace Problem

/-- The exploration from the initial marking, in at most as many rounds as given. -/
def run (p : Problem) (rounds : Nat) : Except Halt Exploration :=
  Exploration.run p rounds (.start p.initial)

/-- The greatest finite count of a marking. -/
def largestCount (m : Marking) : Nat := (m.tokens.filterMap Token.finite?).foldl max 0

/-- As many rounds as there are markings with counts up to the limit or `ω`, and one more: the nodes
of an exploration have different markings, so it needs no more than these. -/
def enoughRounds (limit : Nat) (m : Marking) : Nat :=
  Nat.pow (max limit (largestCount m) + 2) m.size + 1

end Problem

end PetriNets
