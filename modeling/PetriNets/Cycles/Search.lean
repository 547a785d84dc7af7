import PetriNets.Config
import PetriNets.Coverability.Graph
import PetriNets.Cycles.Basic

/-!
# The search for smallest cycles

For a state that lies on a cycle, its component is searched breadth first until all arcs back to the
state that are equally near have been found; the last steps of all shortest walks to the states on
the way are noted, and from them all shortest closed walks are put together.

The search reads the components off a list; in what order they and their states stand there makes no
difference to it.

Before each state from which it starts, and before each state that it takes off its queue, the
search asks whether it may go on; it is given the number of times that the answer is yes.
-/

namespace PetriNets

/-- The number of the component in which a state stands. -/
def componentOf (components : List (List String)) (id : String) : Option Nat :=
  components.findIdx? (·.contains id)

namespace TransitionSystem

/-- The strongly connected component of a state: the states that can be reached from it and from which
it can be reached. -/
def component (ts : TransitionSystem) (id : String) : List String :=
  let before := breadthFirst ts.predecessors ts.stateCount id
  (breadthFirst ts.successors ts.stateCount id).filter before.contains

/-- The strongly connected components, each once. -/
def components (ts : TransitionSystem) : List (List String) :=
  ts.stateIds.foldl
    (fun found id => if (componentOf found id).isSome then found else found ++ [ts.component id]) []

/-- Whether there are cycles in a component: it has several states, or an arc leads from its first
state to this state. -/
def isCyclic (ts : TransitionSystem) (component : List String) : Bool :=
  1 < component.length || component.head?.any fun id => (ts.successors id).contains id

end TransitionSystem

/-- How far the search for closed walks through one state has come. -/
structure CycleSearch where
  /-- The states found, with their distance from the start. -/
  depths : List (String × Nat)
  /-- The states found, each with the last steps of the shortest walks to it. -/
  arrivals : List (String × WalkStep)
  /-- The steps that lead back to the start. -/
  closing : List WalkStep
  /-- The distance of the states that these steps leave. -/
  closedAt : Option Nat
  /-- The states whose arcs have not been followed, the next one first. -/
  queue : List String
deriving DecidableEq

namespace CycleSearch

/-- The beginning of the search from a state. -/
def atStart (start : String) : CycleSearch := ⟨[(start, 0)], [], [], none, [start]⟩

/-- The distance of a state from the start. -/
def depth (s : CycleSearch) (id : String) : Nat := (s.depths.lookup id).getD 0

/-- The last steps of the shortest walks to a state. -/
def predecessors (s : CycleSearch) (id : String) : List WalkStep :=
  (s.arrivals.filter fun a => a.1 = id).map Prod.snd

/-- Follows an arc that leaves a state at the given distance. -/
def follow (start : String) (within : String → Bool) (depth : Nat) (s : CycleSearch) (a : Arc) :
    CycleSearch :=
  let target := a.key.target
  let step := (a.key.source, a.label)
  if target = start then { s with closedAt := some depth, closing := s.closing ++ [step] }
  else if !within target then s
  else
    match s.depths.lookup target with
    | none => { s with
        depths := (target, depth + 1) :: s.depths
        arrivals := s.arrivals ++ [(target, step)]
        queue := s.queue ++ [target] }
    | some known =>
      if known = depth + 1 then { s with arrivals := s.arrivals ++ [(target, step)] } else s

/-- Searches until every arc back to the start that is as near as the first one is found. Gives the
number of rounds left over, or nothing if there are too few. -/
def run (ts : TransitionSystem) (start : String) (within : String → Bool) :
    Nat → CycleSearch → Option (CycleSearch × Nat)
  | rounds, s =>
    match s.queue, rounds with
    | [], rounds => some (s, rounds)
    | _ :: _, 0 => none
    | id :: queue, rounds + 1 =>
      let depth := s.depth id
      let s := { s with queue }
      if s.closedAt.any (· < depth) then some (s, rounds)
      else run ts start within rounds ((ts.outgoing id).foldl (follow start within depth) s)

/-- The shortest walks from the start to a state that is at most `fuel` steps away. -/
def shortestWalks (s : CycleSearch) (start : String) : Nat → String → List (List WalkStep)
  | 0, id => if id = start then [[]] else []
  | fuel + 1, id =>
    if id = start then [[]]
    else (s.predecessors id).flatMap fun step =>
      (s.shortestWalks start fuel step.1).map fun walk => walk ++ [step]

/-- The shortest closed walks that a finished search has found. -/
def closedWalks (s : CycleSearch) (start : String) : List (List WalkStep) :=
  s.closing.flatMap fun step =>
    (s.shortestWalks start (s.depth step.1) step.1).map fun walk => walk ++ [step]

end CycleSearch

namespace TransitionSystem

/-- The smallest cycles through a state, and the number of rounds left over. -/
def cyclesThrough (ts : TransitionSystem) (components : List (List String)) (start : String)
    (rounds : Nat) : Option (List Cycle × Nat) :=
  match componentOf components start with
  | none => some ([], rounds)
  | some number =>
    if components[number]?.any ts.isCyclic then do
      let within id := componentOf components id = some number
      let (s, rounds) ← CycleSearch.run ts start within rounds (.atStart start)
      some ((s.closedWalks start).map Cycle.ofSteps, rounds)
    else some ([], rounds)

/-- The smallest cycles through each of the given states, in order. -/
def cyclesFrom (ts : TransitionSystem) (components : List (List String)) :
    List String → Nat → List Cycle → Option (List Cycle)
  | [], _, found => some found
  | _ :: _, 0, _ => none
  | start :: starts, rounds + 1, found => do
    let (cycles, rounds) ← ts.cyclesThrough components start rounds
    ts.cyclesFrom components starts rounds
      (cycles.foldl (fun found c => insertOrdered Cycle.compare c found) found)

/-- The states from which cycles are sought. -/
def cycleStarts (ts : TransitionSystem) (mode : CycleMode) : Except AnalysisError (List String) :=
  match mode with
  | .allStates => .ok ts.stateIds
  | .initialState =>
    match ts.initialState? with
    | some s => .ok [s.id]
    | none => .error .noInitialState

/-- The smallest cycles as found with the given components, or `cancelled` if the search takes more
rounds than given. -/
def smallestCyclesBy (components : List (List String)) (rounds : Nat) (ts : TransitionSystem)
    (mode : CycleMode) : Except AnalysisError SmallestCycles := do
  let starts ← ts.cycleStarts mode
  match ts.cyclesFrom components starts rounds [] with
  | some cycles => .ok ⟨cycles, none⟩
  | none => .error .cancelled

/-- The smallest cycles, or `cancelled` if the search takes more rounds than given. -/
def smallestCyclesWithin (rounds : Nat) (ts : TransitionSystem) (mode : CycleMode) :
    Except AnalysisError SmallestCycles := smallestCyclesBy ts.components rounds ts mode

/-- For each state that the mode selects, all cycles through it that are as short as any. Each
search takes a state off its queue at most once. -/
def smallestCycles (ts : TransitionSystem) (mode : CycleMode) :
    Except AnalysisError SmallestCycles :=
  smallestCyclesWithin (ts.stateCount * (ts.stateCount + 1)) ts mode

end TransitionSystem

end PetriNets
