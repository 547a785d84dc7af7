import PetriNets.TransitionSystem.Basic

/-!
# Systems whose states know whether they are initial

A state can be asked by itself whether it is the initial one. To answer, it keeps a flag, and the
system keeps the name of its initial state besides; a call changes the one after the other, and one
that is refused half way leaves behind what it has changed by then. Nothing in the types keeps the name
and the flags together. `SystemCall` lists the calls, on such a system (`onFlagged`) and on a system
that keeps the name alone (`onSystem`).
-/

namespace PetriNets

/-- A state with the flag that says whether it is the initial one. -/
abbrev FlaggedState := Node Bool

/-- A transition system with a flag in every state. -/
structure FlaggedSystem where
  graph : Graph Bool Unit
  /-- The name of the initial state. -/
  initial : Option String
  /-- The number from which the search for a new name starts. -/
  fresh : Nat
deriving DecidableEq

/-- A call that is answered or refused, and that leaves a system behind in either case. -/
abbrev SystemAction (α : Type) := EStateM GraphError FlaggedSystem α

namespace FlaggedSystem

/-- A system without states. -/
def empty (name : String) : FlaggedSystem := ⟨.empty name, none, 0⟩

/-- The states, in order. -/
def states (sys : FlaggedSystem) : List FlaggedState := sys.graph.nodes

/-- The initial state. -/
def initialState? (sys : FlaggedSystem) : Option FlaggedState :=
  sys.initial.bind fun id => (sys.graph.slot? id).map Slot.node

/-- Changes the graph alone. -/
def changeGraph {α : Type} (f : Graph Bool Unit → Except GraphError (α × Graph Bool Unit)) :
    SystemAction α := fun sys =>
  match f sys.graph with
  | .ok (a, graph) => .ok a { sys with graph }
  | .error e => .error e sys

/-- The next name that is not in use. The search goes on behind it, even if it comes to nothing. -/
def freshName : SystemAction String := do
  let sys ← get
  let n := firstFree (fun n => sys.graph.containsNode (stateName n)) sys.states.length sys.fresh
  set { sys with fresh := n + 1 }
  return stateName n

/-- Adds a state. -/
def addState (s : FlaggedState) : SystemAction FlaggedState :=
  changeGraph fun g => return (s, ← g.insertNode s)

/-- Adds a state of the given name, or of a new one. -/
def createState (id : Option String) : SystemAction FlaggedState := do
  let id ← match id with
    | some id => pure id
    | none => freshName
  addState ⟨id, false, ∅⟩

/-- Adds an arc without extensions. -/
def createArc (source target label : String) : SystemAction Arc :=
  let a := Arc.between source target label
  changeGraph fun g => return (a, ← g.insertEdge a)

/-- Takes out a state and every arc that touches it, and then forgets its name. -/
def removeState (id : String) : SystemAction FlaggedState := do
  let s ← changeGraph fun g => g.removeNode id
  modify fun sys => { sys with initial := if sys.initial = some id then none else sys.initial }
  return s

/-- Takes out an arc. -/
def removeArc (source target label : String) : SystemAction Arc :=
  changeGraph fun g => g.removeEdge ⟨source, target, some label⟩

/-- Raises or lowers the flag of a state. -/
def setFlag (id : String) (flag : Bool) : SystemAction Unit :=
  changeGraph fun g => do
    let _ ← g.node id
    return ((), g.modifyData id fun _ => flag)

/-- Lowers the flag of a state, if there is a state of this name. -/
def lowerFlag (id : String) : SystemAction Unit := fun sys =>
  match setFlag id false sys with
  | .ok _ sys | .error _ sys => .ok () sys

/-- Lowers the flag of the state that was the initial one before, unless it still is. -/
def lowerPrevious (id : String) : Option String → SystemAction Unit
  | some v => if v = id then pure () else lowerFlag v
  | none => pure ()

/-- Makes a state the initial one: its flag is raised, its name noted, and the flag of the state
whose name was noted before is lowered. -/
def setInitialState (id : String) : SystemAction Unit := do
  setFlag id true
  let previous := (← get).initial
  modify fun sys => { sys with initial := some id }
  lowerPrevious id previous

/-- Gives the system another name. -/
def rename (sys : FlaggedSystem) (name : String) : FlaggedSystem :=
  { sys with graph := { sys.graph with name } }

/-- The copy of the system. -/
def copied (sys : FlaggedSystem) : FlaggedSystem := { sys with graph := sys.graph.copied }

end FlaggedSystem

/-! ## Calls -/

/-- A call that changes a transition system. -/
inductive SystemCall where
  | createState (id : Option String)
  | createArc (source target label : String)
  | removeState (id : String)
  | removeArc (source target label : String)
  | setInitialState (id : String)
  | rename (name : String)
  | copy

/-- What a call gives that is not refused. -/
inductive SystemAnswer where
  | done
  | state (s : FlaggedState)
  | arc (a : Arc)

/-- A state with the flag that it would have in a system. -/
def TransitionSystem.flag (ts : TransitionSystem) (s : State) : FlaggedState :=
  ⟨s.id, ts.isInitial s, s.extensions⟩

namespace SystemCall

/-- The call made on a system with flags. -/
def onFlagged : SystemCall → SystemAction SystemAnswer
  | createState id => .state <$> FlaggedSystem.createState id
  | createArc source target label => .arc <$> FlaggedSystem.createArc source target label
  | removeState id => .state <$> FlaggedSystem.removeState id
  | removeArc source target label => .arc <$> FlaggedSystem.removeArc source target label
  | setInitialState id => (fun _ => .done) <$> FlaggedSystem.setInitialState id
  | rename name => do
    modify (·.rename name)
    return .done
  | copy => do
    modify FlaggedSystem.copied
    return .done

/-- The call made on a system that keeps the name of the initial state alone. -/
def onSystem : SystemCall → TransitionSystem → Except GraphError (SystemAnswer × TransitionSystem)
  | createState id, ts =>
    (ts.createState id).map fun (name, next) => (.state (next.flag ⟨name, (), ∅⟩), next)
  | createArc source target label, ts =>
    (ts.createArc source target label).map (.arc (.between source target label), ·)
  | removeState id, ts => (ts.removeState id).map fun (s, next) => (.state (ts.flag s), next)
  | removeArc source target label, ts =>
    (ts.removeArc source target label).map fun (a, next) => (.arc a, next)
  | setInitialState id, ts => (ts.setInitialState id).map (.done, ·)
  | rename name, ts => .ok (.done, ts.rename name)
  | copy, ts => .ok (.done, ts.copied)

end SystemCall

end PetriNets
