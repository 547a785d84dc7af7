/-!
# Analysis settings

What an analysis can be told: how many nodes a coverability graph may have, in which order its nodes
are expanded, from which states cycles are sought, and a time limit.
-/

namespace PetriNets

/-- Which of the waiting nodes is expanded next. -/
inductive ExplorationOrder where
  /-- The one that has waited longest. -/
  | breadthFirst
  /-- The one found last. -/
  | depthFirst
deriving DecidableEq

/-- The states from which smallest cycles are sought. -/
inductive CycleMode where
  | allStates
  | initialState
deriving DecidableEq

/-- The settings of an analysis. -/
structure AnalysisConfig where
  /-- The greatest number of nodes, or `none` where there may be any number. -/
  stateLimit : Option Nat
  explorationOrder : ExplorationOrder
  cycleMode : CycleMode
  /-- A time limit in milliseconds. -/
  timeoutMs : Option Nat
deriving DecidableEq

/-- No limits, the longest waiting node first, and cycles through every state. -/
instance : Inhabited AnalysisConfig := ⟨⟨none, .breadthFirst, .allStates, none⟩⟩

end PetriNets
