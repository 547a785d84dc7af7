/-!
# Dense ids

Places, transitions and the nodes of a coverability graph are numbered from zero in the order in
which they were made. An `Id` is such a number, typed by the letter that names its kind, so that a
place cannot be looked up among the transitions.
-/

namespace PetriNets

/-- A position in the ordered table whose kind is named by `tag`. -/
structure Id (tag : Char) where
  index : Nat
deriving DecidableEq, Ord

/-- The position of a place in its net. -/
abbrev PlaceId := Id 'p'

/-- The position of a transition in its net. -/
abbrev TransitionId := Id 't'

/-- The position of a node in a coverability graph. -/
abbrev NodeId := Id 'n'

namespace Id

variable {tag : Char}

/-- The id as text: its kind, `#` and its number, as in `p#0`. -/
def text (i : Id tag) : String := s!"{tag}#{i.index}"

/-- The first `n` ids, in order. -/
def upTo (n : Nat) : List (Id tag) := (List.range n).map Id.mk

@[simp] theorem length_upTo (n : Nat) : (upTo n : List (Id tag)).length = n := by simp [upTo]

theorem mem_upTo {n : Nat} {i : Id tag} : i ∈ upTo n ↔ i.index < n := by
  cases i; simp [upTo]

end Id

end PetriNets
