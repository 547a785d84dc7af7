/-!
# Breadth-first traversal

Everything that can be reached in a graph given by its successor function, nearest first.
-/

namespace PetriNets

variable {α : Type} [DecidableEq α]

/-- Takes the first of the queue, and appends to the queue and to what has been seen those of its
successors that have not been seen. Each turn takes one unit of fuel. -/
def breadthFirstFrom (next : α → List α) : Nat → List α → List α → List α
  | 0, _, seen => seen
  | _ + 1, [], seen => seen
  | fuel + 1, v :: queue, seen =>
    let new := (next v).eraseDups.filter fun w => !seen.contains w
    breadthFirstFrom next fuel (queue ++ new) (seen ++ new)

/-- What can be reached from `start`, itself first, in a graph of at most `size` nodes. -/
def breadthFirst (next : α → List α) (size : Nat) (start : α) : List α :=
  breadthFirstFrom next size [start] [start]

end PetriNets
