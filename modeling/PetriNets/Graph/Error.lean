/-!
# Edge keys and graph errors

How an edge is named, and what can be wrong with an operation on a graph or on the net or transition
system that is built on one.
-/

namespace PetriNets

/-- What names an edge in its graph: its ends and, where edges may run in parallel, its label. -/
structure EdgeKey where
  source : String
  target : String
  label : Option String
deriving DecidableEq

/-- The key as text: `a -> b`, or `a -[l]-> b` with a label. -/
def EdgeKey.text (k : EdgeKey) : String :=
  match k.label with
  | some label => s!"{k.source} -[{label}]-> {k.target}"
  | none => s!"{k.source} -> {k.target}"

/-- Why an operation on a graph was refused. -/
inductive GraphError where
  | duplicateNode (id : String)
  | nodeNotFound (id : String)
  | duplicateEdge (key : EdgeKey)
  | edgeNotFound (key : EdgeKey)
  /-- A flow that does not join a place and a transition. -/
  | illegalFlow (source target : String)
  /-- A flow that moves no token. -/
  | invalidWeight (source target : String) (weight : Nat)
  | notAPlace (id : String)
  | notATransition (id : String)
deriving DecidableEq

/-- The wording of the error. -/
def GraphError.message : GraphError → String
  | duplicateNode id => s!"node `{id}` already exists"
  | nodeNotFound id => s!"node `{id}` does not exist"
  | duplicateEdge key => s!"edge `{key.text}` already exists"
  | edgeNotFound key => s!"edge `{key.text}` does not exist"
  | illegalFlow source target =>
    s!"illegal flow `{source}` -> `{target}`: flows must connect a place and a transition"
  | invalidWeight source target weight =>
    s!"flow `{source}` -> `{target}` has weight {weight}, expected at least 1"
  | notAPlace id => s!"node `{id}` is not a place"
  | notATransition id => s!"node `{id}` is not a transition"

end PetriNets
