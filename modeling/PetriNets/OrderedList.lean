/-!
# Ordered lists

Lists that are kept in ascending order and hold each item once, for an order given by a comparison.
-/

namespace PetriNets

variable {α : Type}

/-- Puts an item where it belongs, unless an equal one is there. -/
def insertOrdered (cmp : α → α → Ordering) (a : α) : List α → List α
  | [] => [a]
  | b :: rest =>
    match cmp a b with
    | .lt => a :: b :: rest
    | .eq => b :: rest
    | .gt => b :: insertOrdered cmp a rest

/-- The items of a list in ascending order, each once. -/
def orderedOfList (cmp : α → α → Ordering) (xs : List α) : List α :=
  xs.foldl (fun ys x => insertOrdered cmp x ys) []

end PetriNets
