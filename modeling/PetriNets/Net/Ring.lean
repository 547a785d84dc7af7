import PetriNets.Net.Basic

/-!
# Rings

A net for every size: `n` places and `n` transitions in a circle, with one token that walks around.
-/

namespace PetriNets

/-- The `i`-th place of a ring: the first one holds the token. -/
def ringPlace (i : Nat) : Place := ⟨s!"p{i}", if i = 0 then 1 else 0, ∅⟩

/-- Adds the `i`-th transition of a ring of `n` and its two flows. -/
def addRingStep (n : Nat) (net : Net) (i : Nat) : Except GraphError Net := do
  let t := s!"t{i}"
  let (_, net) ← net.createTransition t
  let net ← net.createFlow s!"p{i}" t 1
  net.createFlow t s!"p{(i + 1) % n}" 1

/-- The ring of `n` steps: place `p<i>` feeds transition `t<i>`, which feeds the place after it. -/
def ring (n : Nat) : Except GraphError Net := do
  let places ← (List.range n).foldlM
    (fun net i => return (← Net.addPlace net (ringPlace i)).2) (.empty s!"cycle-{n}")
  (List.range n).foldlM (addRingStep n) places

end PetriNets
