import PetriNets.Net.Firing
import PetriNets.Net.Reversal

/-!
# Nets with tables of names

A net that is asked for its places and transitions by number keeps two tables of names beside its
graph. A call changes the graph and a table one after the other, so between two steps they are not in
step; and a call that is refused half way leaves behind what it has changed by then. Nothing in the
types keeps the three together. `NetCall` lists the calls, on such a net (`onIndexed`) and on a net
that reads its places and transitions off the graph (`onNet`).
-/

namespace PetriNets

/-- A graph with a table of the names of its places and one of the names of its transitions. -/
structure IndexedNet where
  graph : Graph Element Nat
  placeIds : List String
  transitionIds : List String
deriving DecidableEq

/-- A call that is answered or refused, and that leaves a net behind in either case. -/
abbrev NetAction (ε α : Type) := EStateM ε IndexedNet α

/-- Puts a name at the end of a table unless it is there, and tells its position. -/
def enterName (names : List String) (name : String) : Nat × List String :=
  match names.idxOf? name with
  | some i => (i, names)
  | none => (names.length, names ++ [name])

namespace IndexedNet

/-- A net without nodes. -/
def empty (name : String) : IndexedNet := ⟨.empty name, [], []⟩

/-! ## Reading -/

/-- The number of the place of this name. -/
def placeIndex (net : IndexedNet) (id : String) : Except GraphError PlaceId :=
  match net.placeIds.idxOf? id with
  | some i => .ok ⟨i⟩
  | none => .error (if net.graph.containsNode id then .notAPlace id else .nodeNotFound id)

/-- The number of the transition of this name. -/
def transitionIndex (net : IndexedNet) (id : String) : Except GraphError TransitionId :=
  match net.transitionIds.idxOf? id with
  | some i => .ok ⟨i⟩
  | none => .error (if net.graph.containsNode id then .notATransition id else .nodeNotFound id)

/-- The name of the place of a number; past the end the number itself. -/
def placeName (net : IndexedNet) (p : PlaceId) : String := (net.placeIds[p.index]?).getD p.text

/-- The name of the transition of a number; past the end the number itself. -/
def transitionName (net : IndexedNet) (t : TransitionId) : String :=
  (net.transitionIds[t.index]?).getD t.text

/-- The places that the table names, as far as the graph has them. -/
def places (net : IndexedNet) : List Place :=
  net.placeIds.filterMap fun id => (net.graph.node id).toOption.bind Node.asPlace?

/-- The transitions that the table names, as far as the graph has them. -/
def transitions (net : IndexedNet) : List Transition :=
  net.transitionIds.filterMap fun id => (net.graph.node id).toOption.bind Node.asTransition?

/-! ## Changing -/

/-- Changes the graph alone. -/
def changeGraph {α : Type} (f : Graph Element Nat → Except GraphError (α × Graph Element Nat)) :
    NetAction GraphError α := fun net =>
  match f net.graph with
  | .ok (a, graph) => .ok a { net with graph }
  | .error e => .error e net

/-- The node of a name. -/
def node (id : String) : NetAction GraphError (Node Element) := fun net =>
  match net.graph.node id with
  | .ok n => .ok n net
  | .error e => .error e net

/-- Adds a place: the node first, then the name. -/
def addPlace (p : Place) : NetAction GraphError PlaceId := do
  changeGraph fun g => return ((), ← g.insertNode p.node)
  let net ← get
  let (index, placeIds) := enterName net.placeIds p.id
  set { net with placeIds }
  return ⟨index⟩

/-- Adds a transition: the node first, then the name. -/
def addTransition (t : Transition) : NetAction GraphError TransitionId := do
  changeGraph fun g => return ((), ← g.insertNode t.node)
  let net ← get
  let (index, transitionIds) := enterName net.transitionIds t.id
  set { net with transitionIds }
  return ⟨index⟩

/-- Adds a flow between a place and a transition, in either direction. -/
def createFlow (source target : String) (weight : Nat) : NetAction GraphError Flow := do
  if weight = 0 then throw (.invalidWeight source target weight)
  let s ← node source
  let t ← node target
  if s.data.isPlace = t.data.isPlace then throw (.illegalFlow source target)
  changeGraph fun g => do
    let f := Flow.between source target weight
    return (f, ← g.insertEdge f)

/-- Takes out a flow. -/
def removeFlow (source target : String) : NetAction GraphError Flow :=
  changeGraph fun g => g.removeEdge ⟨source, target, none⟩

/-- Takes out a node and every flow that touches it, and then its name from the table of its kind. -/
def removeNode (id : String) : NetAction GraphError (Node Element) := do
  let n ← changeGraph fun g => g.removeNode id
  match n.data with
  | .place _ => modify fun net => { net with placeIds := net.placeIds.erase id }
  | .transition _ => modify fun net => { net with transitionIds := net.transitionIds.erase id }
  return n

/-- Changes the initial tokens of a place. -/
def setTokens (id : String) (tokens : Nat) : NetAction GraphError Unit := do
  match (← node id).data with
  | .place _ =>
    modify fun net => { net with graph := net.graph.modifyData id fun _ => .place tokens }
  | .transition _ => throw (.notAPlace id)

/-- Changes the label of a transition. -/
def setLabel (id : String) (label : String) : NetAction GraphError Unit := do
  match (← node id).data with
  | .place _ => throw (.notATransition id)
  | .transition _ =>
    modify fun net => { net with graph := net.graph.modifyData id fun _ => .transition label }

/-- Changes the initial tokens of a place, if there is a place of this name. -/
def setTokensOf (e : String × Nat) : NetAction FireError Unit := fun net =>
  match setTokens e.1 e.2 net with
  | .ok _ net | .error _ net => .ok () net

/-- Makes a finite marking the initial one, place by place once all of them have been looked at. -/
def setInitialMarking (m : Marking) : NetAction FireError Unit := do
  let net ← get
  if m.size ≠ net.placeIds.length then
    throw (.markingMismatch net.placeIds.length m.size)
  let counts ← m.entries.mapM fun e =>
    match e.2.finite? with
    | some n => return (net.placeName e.1, n)
    | none => throw (.omegaToken (net.placeName e.1))
  counts.forM setTokensOf

/-- The copy of the net. -/
def copied (net : IndexedNet) : IndexedNet := { net with graph := net.graph.copied }

/-- Adds what a net has, first the places, then the transitions, then the flows turned around. -/
def addReversed (net : IndexedNet) : NetAction GraphError Unit := do
  net.places.forM fun p => discard (addPlace p.copied)
  net.transitions.forM fun t => discard (addTransition t.copied)
  net.graph.edges.forM fun f => changeGraph fun g => return ((), ← g.insertEdge (Flow.reversed f))

/-- What is left behind by an action, unless it is refused. -/
def kept {ε α : Type} : EStateM.Result ε IndexedNet α → Except ε IndexedNet
  | .ok _ net => .ok net
  | .error e _ => .error e

/-- The net with every flow turned around, built anew. -/
def reversed (net : IndexedNet) : Except GraphError IndexedNet :=
  let start := empty net.graph.name
  kept (net.addReversed { start with
    graph := { start.graph with extensions := net.graph.extensions.copied } })

/-- Puts the reversed net in the place of the net. -/
def reverse : NetAction GraphError Unit := fun net =>
  match net.reversed with
  | .ok r => .ok () r
  | .error e => .error e net

end IndexedNet

/-! ## Calls -/

/-- A call that changes a net. -/
inductive NetCall where
  | createPlace (id : String)
  | addPlace (p : Place)
  | createTransition (id : String)
  | createLabelledTransition (id label : String)
  | addTransition (t : Transition)
  | createFlow (source target : String) (weight : Nat)
  | removeFlow (source target : String)
  | removeNode (id : String)
  | setTokens (id : String) (tokens : Nat)
  | setLabel (id label : String)
  | setInitialMarking (m : Marking)
  | copy
  | reverse

/-- What a call gives that is not refused. -/
inductive NetAnswer where
  | done
  | place (id : PlaceId)
  | transition (id : TransitionId)
  | flow (f : Flow)
  | node (n : Node Element)

/-- Why a call was refused. -/
inductive NetError where
  | graph (error : GraphError)
  | fire (error : FireError)

namespace NetCall

/-- What a call on the tables comes to, in the words of `NetAnswer` and `NetError`. -/
def told {ε α : Type} (answer : α → NetAnswer) (error : ε → NetError) (action : NetAction ε α) :
    NetAction NetError NetAnswer := fun net =>
  match action net with
  | .ok a net => .ok (answer a) net
  | .error e net => .error (error e) net

/-- What a call gives, in the same words. -/
def answered {ε α : Type} (answer : α → NetAnswer) (error : ε → NetError)
    (result : Except ε (α × Net)) : Except NetError (NetAnswer × Net) :=
  match result with
  | .ok (a, net) => .ok (answer a, net)
  | .error e => .error (error e)

/-- The call made on a net with tables. -/
def onIndexed : NetCall → NetAction NetError NetAnswer
  | createPlace id => told .place .graph (IndexedNet.addPlace ⟨id, 0, ∅⟩)
  | addPlace p => told .place .graph (IndexedNet.addPlace p)
  | createTransition id => told .transition .graph (IndexedNet.addTransition ⟨id, id, ∅⟩)
  | createLabelledTransition id label =>
    told .transition .graph (IndexedNet.addTransition ⟨id, label, ∅⟩)
  | addTransition t => told .transition .graph (IndexedNet.addTransition t)
  | createFlow source target weight =>
    told .flow .graph (IndexedNet.createFlow source target weight)
  | removeFlow source target => told .flow .graph (IndexedNet.removeFlow source target)
  | removeNode id => told .node .graph (IndexedNet.removeNode id)
  | setTokens id tokens => told (fun _ => .done) .graph (IndexedNet.setTokens id tokens)
  | setLabel id label => told (fun _ => .done) .graph (IndexedNet.setLabel id label)
  | setInitialMarking m => told (fun _ => .done) .fire (IndexedNet.setInitialMarking m)
  | copy => told (fun _ => .done) .graph (modify IndexedNet.copied)
  | reverse => told (fun _ => .done) .graph IndexedNet.reverse

/-- The call made on a net that reads its places and transitions off the graph. -/
def onNet : NetCall → Net → Except NetError (NetAnswer × Net)
  | createPlace id, net => answered .place .graph (net.createPlace id)
  | addPlace p, net => answered .place .graph (net.addPlace p)
  | createTransition id, net => answered .transition .graph (net.createTransition id)
  | createLabelledTransition id label, net =>
    answered .transition .graph (net.addTransition ⟨id, label, ∅⟩)
  | addTransition t, net => answered .transition .graph (net.addTransition t)
  | createFlow source target weight, net => answered .flow .graph do
    return (Flow.between source target weight, ← net.createFlow source target weight)
  | removeFlow source target, net => answered .flow .graph (net.removeFlow source target)
  | removeNode id, net => answered .node .graph (net.removeNode id)
  | setTokens id tokens, net =>
    answered (fun _ => .done) .graph ((net.setTokens id tokens).map ((), ·))
  | setLabel id label, net =>
    answered (fun _ => .done) .graph ((net.setLabel id label).map ((), ·))
  | setInitialMarking m, net =>
    answered (fun _ => .done) .fire ((net.setInitialMarking m).map ((), ·))
  | copy, net => .ok (.done, net.copied)
  | reverse, net => answered (fun _ => .done) .graph (net.reversed.map ((), ·))

end NetCall

namespace IndexedNet

/-- Makes a call. Gives the answer to it and the net that it leaves behind. -/
def answering (c : NetCall) (net : IndexedNet) : Except NetError NetAnswer × IndexedNet :=
  match c.onIndexed net with
  | .ok a next => (.ok a, next)
  | .error e next => (.error e, next)

/-- Makes the calls of a script one after the other. -/
def answeringAll : List NetCall → IndexedNet → List (Except NetError NetAnswer) × IndexedNet
  | [], net => ([], net)
  | c :: calls, net =>
    let (answer, next) := answering c net
    let (answers, last) := answeringAll calls next
    (answer :: answers, last)

/-- The net that has come about by these calls, some of which may have been refused. -/
def ofScript (name : String) (calls : List NetCall) : IndexedNet :=
  (answeringAll calls (empty name)).2

/-- The answers to these calls. -/
def answers (name : String) (calls : List NetCall) : List (Except NetError NetAnswer) :=
  (answeringAll calls (empty name)).1

end IndexedNet

end PetriNets
