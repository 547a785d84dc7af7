import PetriNets.Coverability.Exploration
import PetriNets.Net.Firing
import PetriNets.TransitionSystem.Basic

/-!
# Coverability graphs

The result of exploring a net, with the questions that it answers and the transition systems that it
is turned into.
-/

namespace PetriNets

/-- Why an analysis gave no result. -/
inductive AnalysisError where
  | unbounded (witness : Witness)
  | cancelled
  | stateLimitExceeded (limit : Nat)
  | noInitialState
  | graph (error : GraphError)
  | fire (error : FireError)
deriving DecidableEq

/-- The wording of the error. -/
def AnalysisError.message : AnalysisError → String
  | unbounded w => s!"net is unbounded: {w.text}"
  | cancelled => "analysis cancelled: Operation cancelled (caused by `Budget`)"
  | stateLimitExceeded limit => s!"state limit of {limit} nodes exceeded"
  | noInitialState => "transition system has no initial state"
  | graph e => e.message
  | fire e => e.message

/-- The coverability graph of a net. -/
structure CoverabilityGraph where
  name : String
  nodes : Table 'n' CoverNode
  edges : Array CoverEdge
  labels : Table 't' String
  witnesses : List Witness
deriving DecidableEq

/-- A net as a problem for an exploration. -/
def Net.problem (net : Net) (cap : Capacity) (config : AnalysisConfig) : Problem where
  incidence := net.incidence
  initial := net.initialMarking
  placeName := net.placeName
  capacity := cap
  order := config.explorationOrder
  stateLimit := config.stateLimit

/-- Why an exploration stopped, in the names of the net. -/
def Net.haltError (net : Net) : Halt → AnalysisError
  | .cancelled => .cancelled
  | .stateLimit limit => .stateLimitExceeded limit
  | .fault t fault => .fire (net.faultError t fault)

namespace CoverabilityGraph

/-- The graph of a finished exploration. -/
def ofExploration (net : Net) (x : Exploration) : CoverabilityGraph where
  name := net.name
  nodes := x.nodes
  edges := x.edges
  labels := .ofList (net.transitions.map Transition.label)
  witnesses := x.witnesses

/-- The coverability graph where every place has the given capacity, in at most as many rounds as
given. -/
def exploreWithin (cap : Capacity) (rounds : Nat) (config : AnalysisConfig) (net : Net) :
    Except AnalysisError CoverabilityGraph :=
  match (net.problem cap config).run rounds with
  | .ok x => .ok (ofExploration net x)
  | .error halt => .error (net.haltError halt)

/-- The coverability graph, or `cancelled` if it takes more rounds than given. -/
def buildWithin (rounds : Nat) (config : AnalysisConfig) (net : Net) :
    Except AnalysisError CoverabilityGraph := exploreWithin .word rounds config net

/-- The coverability graph; counts are kept in 64-bit words. -/
def build (config : AnalysisConfig) (net : Net) : Except AnalysisError CoverabilityGraph :=
  buildWithin (Problem.enoughRounds maxWord net.initialMarking) config net

/-! ## Questions -/

variable (g : CoverabilityGraph)

/-- The node of the initial marking. -/
def initial : NodeId := ⟨0⟩

/-- The number of nodes. -/
def nodeCount : Nat := g.nodes.size

/-- The number of edges. -/
def edgeCount : Nat := g.edges.size

/-- The label of a transition. -/
def label? (t : TransitionId) : Option String := g.labels.get? t

/-- The nodes that enable no transition. -/
def deadlocks : List NodeId :=
  (g.nodes.entries.filter fun e => e.2.enabled.isEmpty).map Prod.fst

/-- Whether some node holds `ω` somewhere. -/
def hasOmega : Bool := g.nodes.toList.any fun n => n.marking.hasOmega

/-- The places that hold `ω` in some node, in order. -/
def unboundedPlaces : List PlaceId :=
  let places := g.nodes.toList.flatMap fun n => n.marking.omegaPlaces.map Id.index
  (places.eraseDups.mergeSort fun i j => decide (i ≤ j)).map Id.mk

/-- The most that a place holds in any node. -/
def placeBound (p : PlaceId) : Token :=
  (g.nodes.toList.map fun n => n.marking.count p).foldl Token.max .zero

/-- The greatest finite count of any place in any node. -/
def largestCount : Nat :=
  (g.nodes.toList.flatMap fun n => n.marking.tokens.filterMap Token.finite?).foldl max 0

/-- Whether the marking of some node covers the given one. -/
def covers (m : Marking) : Bool := g.nodes.toList.any fun n => n.marking.covers m

/-- The transitions on the way down the spanning tree to a node. -/
def firingSequence (id : NodeId) : List TransitionId :=
  match g.nodes.get? id with
  | some n => n.trail.transitions
  | none => []

/-- The witness for a place. -/
def witnessFor? (p : PlaceId) : Option Witness := g.witnesses.find? fun w => w.place = p

/-! ## Transition systems -/

/-- The name of the state of a node. -/
def stateId (id : NodeId) : String := stateName id.index

/-- The state of a node: it carries the node's marking. -/
def stateOf (id : NodeId) (n : CoverNode) : State :=
  ⟨stateId id, (), Extensions.empty.put ⟨"marking", .marking n.marking, .copy⟩⟩

/-- The arc of an edge: it carries the label of the transition. -/
def arcOf (e : CoverEdge) : Arc :=
  .between (stateId e.source) (stateId e.target) ((g.label? e.transition).getD "")

/-- Adds the state of a node to a system. -/
def addStateOf (ts : TransitionSystem) (e : NodeId × CoverNode) : TransitionSystem :=
  (ts.addState (stateOf e.1 e.2)).toOption.getD ts

/-- Adds the arc of an edge to a system; one that is there already is left as it is. -/
def addArcOf (ts : TransitionSystem) (e : CoverEdge) : TransitionSystem :=
  (ts.addArc (g.arcOf e)).toOption.getD ts

/-- The graph as a transition system: a state for each node and an arc for each edge. Edges between
the same nodes whose transitions have the same label are one arc. -/
def system : TransitionSystem :=
  let states := g.nodes.entries.foldl addStateOf (TransitionSystem.empty g.name)
  let arcs := g.edges.toList.foldl g.addArcOf states
  (arcs.setInitialState (stateId initial)).toOption.getD arcs

/-- The same for a bounded net, whose coverability graph holds just its reachable markings. -/
def reachabilitySystem : Except AnalysisError TransitionSystem :=
  match g.witnesses.head? with
  | some w => .error (.unbounded w)
  | none => .ok g.system

end CoverabilityGraph

end PetriNets
