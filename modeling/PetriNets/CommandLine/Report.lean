import PetriNets.Boundedness
import PetriNets.CommandLine.Options
import PetriNets.Cycles.Search
import PetriNets.Document.File
import PetriNets.TransitionSystem.Drawing

/-!
# Reports

What a command tells about a net: lines of text, and the transition system that the analysis built,
if it built one.
-/

namespace PetriNets.CommandLine

/-- The result of an analysis as it is shown. -/
structure Report where
  lines : List String
  system : Option TransitionSystem

/-- The names of a sequence of transitions, in square brackets. -/
def namedSequence (net : Net) (ts : List TransitionId) : String :=
  Text.bracketed (ts.map net.transitionName)

/-- How a witness is played. -/
def witnessLine (net : Net) (w : Witness) : String :=
  s!"  fire {namedSequence net w.lead}, then repeat {namedSequence net w.cycle} " ++
    s!"to add {w.gain} token(s) to `{w.placeName}` each time"

/-! ## Boundedness -/

/-- Whether the net is bounded. -/
def boundednessReport (net : Net) (g : CoverabilityGraph) : Report :=
  match g.boundedness with
  | .bounded bound => ⟨[s!"net `{net.name}` is {bound}-bounded"], none⟩
  | .unbounded places witness =>
    let names := Text.joined (places.map net.placeName)
    ⟨[s!"net `{net.name}` is unbounded in {names}", witnessLine net witness], none⟩

/-- Whether a place is bounded. -/
def placeReport (net : Net) (place : String) : PlaceBound → Report
  | .bounded bound => ⟨[s!"place `{place}` is {bound}-bounded"], none⟩
  | .unbounded witness =>
    ⟨s!"place `{place}` is unbounded" :: witness.toList.map (witnessLine net), none⟩

/-! ## Graphs -/

/-- The size of the coverability graph. -/
def coverabilityReport (g : CoverabilityGraph) : Report :=
  ⟨[s!"coverability graph: {g.nodeCount} nodes, {g.edgeCount} edges"], some g.system⟩

/-- The size of the reachability graph, or why it is infinite. -/
def reachabilityReport (net : Net) (g : CoverabilityGraph) : Except AnalysisError Report :=
  match g.reachabilitySystem with
  | .ok ts => .ok ⟨[s!"reachability graph: {ts.stateCount} states"], some ts⟩
  | .error (.unbounded w) => .ok ⟨["reachability graph is infinite", witnessLine net w], none⟩
  | .error e => .error e

/-! ## Cycles -/

/-- The outcome of a check of Parikh vectors, with the pair of cycles that made it fail. -/
def checkLines (name : String) (outcome : Bool × SmallestCycles) : List String :=
  s!"{name}: {outcome.1}" ::
    outcome.2.counterExample.toList.map fun (c, d) => s!"  counter-example: {c.text} / {d.text}"

/-- The smallest cycles, and how their Parikh vectors are related. -/
def cyclesReport (mode : CycleMode) (ts : TransitionSystem) : Except AnalysisError Report := do
  let found ← ts.smallestCycles mode
  let same := found.checkSame
  let disjoint := same.2.checkSameOrDisjoint
  return {
    lines := [s!"{found.length} smallest cycle(s)"] ++
      found.cycles.map (fun c => s!"  {c.text}  {c.parikh.text}") ++
      checkLines "same Parikh vectors" same ++
      checkLines "same or mutually disjoint Parikh vectors" disjoint
    system := some ts }

/-! ## Dead markings -/

/-- A marking that enables no transition, with a sequence that leads to it. -/
structure DeadMarking where
  marking : Marking
  sequence : List TransitionId
deriving DecidableEq

/-- The dead markings of a coverability graph. -/
def deadMarkings (g : CoverabilityGraph) : List DeadMarking :=
  g.deadlocks.filterMap fun id =>
    (g.nodes.get? id).map fun n => ⟨n.marking, g.firingSequence id⟩

/-- A dead marking and how it is reached. -/
def DeadMarking.line (net : Net) (d : DeadMarking) : String :=
  s!"dead marking {d.marking.fullText} after {namedSequence net d.sequence}"

/-- All dead markings. -/
def deadlockReport (net : Net) (g : CoverabilityGraph) : Report :=
  match deadMarkings g with
  | [] => ⟨["no dead markings"], none⟩
  | ds => ⟨ds.map (DeadMarking.line net), none⟩

/-! ## Reports as asked for -/

/-- The report that a command asks for. -/
def report (options : Options) (config : AnalysisConfig) (net : Net) :
    Except AnalysisError Report :=
  match options.analysis, options.place with
  | .bounded, some place => return placeReport net place (← net.checkPlaceBounded config place)
  | .bounded, none => return boundednessReport net (← CoverabilityGraph.build config net)
  | .coverability, _ => return coverabilityReport (← CoverabilityGraph.build config net)
  | .reachability, _ => do reachabilityReport net (← CoverabilityGraph.build config net)
  | .cycles, _ => do cyclesReport config.cycleMode (← CoverabilityGraph.build config net).system
  | .deadlocks, _ => return deadlockReport net (← CoverabilityGraph.build config net)

/-- What is printed: the lines, and the drawing of the system if it is asked for. -/
def Report.output (options : Options) (r : Report) : String :=
  let drawing := if options.dot then r.system.toList.map (·.drawing.dot) else []
  String.join ((r.lines ++ drawing).map (· ++ "\n"))

/-- What is written to a file, with its path. -/
def Report.document? (options : Options) (r : Report) : Option (String × String) := do
  let path ← options.output
  let system ← r.system
  some (path, Json.format.write system.toDocument)

end PetriNets.CommandLine
