import PetriNets.TransitionSystem.Basic

/-!
# Drawings

A transition system as a numbered graph, and that graph in the DOT language.
-/

namespace PetriNets

/-- Nodes and edges with their labels, the nodes by number. -/
structure Drawing where
  nodes : List String
  edges : List (Nat × Nat × String)
deriving DecidableEq

/-- A text between the quotes of a DOT label: quotes and backslashes are escaped, and a new line
begins with everything before it aligned to the left. -/
def dotLabel (s : String) : String :=
  String.ofList (s.toList.flatMap fun c =>
    if c = '"' ∨ c = '\\' then ['\\', c] else if c = '\n' then ['\\', 'l'] else [c])

/-- The drawing in the DOT language. -/
def Drawing.dot (d : Drawing) : String :=
  let node (n : Nat × String) : String :=
    "    " ++ toString n.1 ++ " [ label = \"" ++ dotLabel n.2 ++ "\" ]\n"
  let edge (e : Nat × Nat × String) : String :=
    "    " ++ toString e.1 ++ " -> " ++ toString e.2.1 ++ " [ label = \"" ++ dotLabel e.2.2 ++
      "\" ]\n"
  "digraph \x7b\n" ++ String.join (((List.range d.nodes.length).zip d.nodes).map node) ++
    String.join (d.edges.map edge) ++ "\x7d\n"

/-- The system with its states numbered in order. -/
def TransitionSystem.drawing (ts : TransitionSystem) : Drawing where
  nodes := ts.stateIds
  edges := ts.arcs.filterMap fun a => do
    some (← ts.stateIds.idxOf? a.key.source, ← ts.stateIds.idxOf? a.key.target, a.label)

end PetriNets
