import PetriNets.OrderedList
import PetriNets.Parikh

/-!
# Cycles

A cycle of a transition system is a closed walk, whichever of its states it is said to begin with.
So that it has one form it is turned to begin where the list of its steps is least.
-/

namespace PetriNets

/-- A step of a walk: the state it leaves and the label of the arc it takes. -/
abbrev WalkStep := String × String

/-- The order of steps: by state, then by label. -/
def compareSteps (a b : WalkStep) : Ordering :=
  compareLex (compareOn Prod.fst) (compareOn Prod.snd) a b

/-- The order of walks, step by step. -/
def compareWalks (a b : List WalkStep) : Ordering := List.compareLex compareSteps a b

/-- A closed walk from each of its steps on, beginning with itself. -/
def rotations (steps : List WalkStep) : List (List WalkStep) :=
  (List.range steps.length).map fun k => steps.drop k ++ steps.take k

/-- The closed walk from the step on where it is least. -/
def leastRotation (steps : List WalkStep) : List WalkStep :=
  (rotations steps).foldl (fun best r => if compareWalks r best = .lt then r else best) steps

/-- A cycle: its states, the labels between them, and how often each label occurs. -/
structure Cycle where
  states : List String
  labels : List String
  parikh : ParikhVector
deriving DecidableEq

namespace Cycle

/-- The cycle of a closed walk. -/
def ofSteps (steps : List WalkStep) : Cycle :=
  let least := leastRotation steps
  let labels := least.map Prod.snd
  ⟨least.map Prod.fst, labels, .ofSequence labels⟩

/-- The number of steps. -/
def length (c : Cycle) : Nat := c.labels.length

/-- Whether there is no step. -/
def isEmpty (c : Cycle) : Bool := c.labels.isEmpty

/-- The steps. -/
def steps (c : Cycle) : List WalkStep := c.states.zip c.labels

/-- The cycle as a walk back to its first state: `s0 -a-> s1 -b-> s0`. -/
def text (c : Cycle) : String :=
  String.join (c.steps.map fun s => s!"{s.1} -{s.2}-> ") ++ c.states.head?.getD ""

/-- The order of cycles: by states, then by labels, then by the counts. -/
def compare (c d : Cycle) : Ordering :=
  (Ord.compare c.states d.states).then
    ((Ord.compare c.labels d.labels).then (c.parikh.compare d.parikh))

end Cycle

/-- The first pair of items of a list, in order, that a test accepts: the first item as early as
possible, and then the second one. -/
def firstPair {α : Type} (test : α → α → Bool) : List α → Option (α × α)
  | [] => none
  | a :: rest =>
    match rest.find? (test a) with
    | some b => some (a, b)
    | none => firstPair test rest

/-- Cycles in ascending order, with the pair of them that made the last check fail. -/
structure SmallestCycles where
  cycles : List Cycle
  counterExample : Option (Cycle × Cycle)
deriving DecidableEq

namespace SmallestCycles

/-- The number of cycles. -/
def length (s : SmallestCycles) : Nat := s.cycles.length

/-- The Parikh vectors of the cycles, each once, in order. -/
def parikhVectors (s : SmallestCycles) : List ParikhVector :=
  orderedOfList ParikhVector.compare (s.cycles.map Cycle.parikh)

/-- Whether the vectors of any two cycles are compatible; notes the first pair that is not. -/
def check (compatible : ParikhVector → ParikhVector → Bool) (s : SmallestCycles) :
    Bool × SmallestCycles :=
  let pair := firstPair (fun c d => !compatible c.parikh d.parikh) s.cycles
  (pair.isNone, { s with counterExample := pair })

/-- Whether all cycles have the same Parikh vector. -/
def checkSame : SmallestCycles → Bool × SmallestCycles := check fun v w => v = w

/-- Whether any two Parikh vectors are equal or share no label. -/
def checkSameOrDisjoint : SmallestCycles → Bool × SmallestCycles :=
  check fun v w => v = w || v.isDisjoint w

end SmallestCycles

end PetriNets
