import PetriNets.Boundedness
import PetriNets.CommandLine.Command
import PetriNets.Cycles.Search
import PetriNets.Document.File
import PetriNets.Main
import PetriNets.Net.Reversal
import PetriNets.Net.Ring
import PetriNets.Proofs.Arcs
import PetriNets.Proofs.Boundedness
import PetriNets.Proofs.Coverability.Acceleration
import PetriNets.Proofs.Coverability.Exploration
import PetriNets.Proofs.Coverability.Graph
import PetriNets.Proofs.Coverability.Precision
import PetriNets.Proofs.Coverability.Pumping
import PetriNets.Proofs.Coverability.Simulation
import PetriNets.Proofs.Coverability.Trail
import PetriNets.Proofs.Coverability.Witnesses
import PetriNets.Proofs.FiringSequence
import PetriNets.Proofs.Marking
import PetriNets.TransitionSystem.Drawing
import PetriNets.Proofs.Graph.Listing
import PetriNets.Proofs.Coverability.Branches
import PetriNets.Proofs.Net.Built
import PetriNets.Proofs.Coverability.Termination
import PetriNets.Proofs.Graph.BreadthFirst
import PetriNets.Proofs.TransitionSystem.Built
import PetriNets.Proofs.Coverability.Reachability
import PetriNets.Proofs.Coverability.System
import PetriNets.Proofs.Cycles.Component
import PetriNets.Proofs.OrderedList
import PetriNets.Proofs.Cycles.Canonical
import PetriNets.Proofs.Cycles.Search
import PetriNets.Proofs.Cycles.Shortest
import PetriNets.Proofs.Cycles.Smallest
import PetriNets.Net.Indexed
import PetriNets.Proofs.Net.Tables
import PetriNets.Proofs.Net.Indexed
import PetriNets.Proofs.Net.InStep
import PetriNets.Proofs.Net.Firing
import PetriNets.Proofs.Coverability.Overflow
import PetriNets.Proofs.Coverability.Order
import PetriNets.Proofs.Coverability.Structure
import PetriNets.Proofs.Coverability.Conversion
import PetriNets.Proofs.Cycles.Balance
import PetriNets.Proofs.Net.Reversal
import PetriNets.Proofs.Document.Net
import PetriNets.Proofs.Document.System
import PetriNets.Proofs.Document.RoundTrip
import PetriNets.TransitionSystem.Flagged
import PetriNets.Proofs.Action
import PetriNets.Proofs.Graph.WithData
import PetriNets.Proofs.TransitionSystem.Flagged
import PetriNets.Proofs.TransitionSystem.InitialState
import PetriNets.Proofs.Cancellation
import PetriNets.Proofs.Coverability.Limit
import PetriNets.Proofs.Copying
import PetriNets.Proofs.Coverability.Levels
import PetriNets.Proofs.Coverability.Repetition
import PetriNets.Proofs.Coverability.Ancestors
import PetriNets.Proofs.Document.Counts
import PetriNets.Proofs.Net.Backward
import PetriNets.Proofs.StateEquation
import PetriNets.Proofs.Coverability.Deadlocks
import PetriNets.Proofs.Coverability.Replay
import PetriNets.Proofs.CommandLine.DeadMarkings
import PetriNets.Proofs.Net.Domination
import PetriNets.Proofs.Net.InitialMarking
import PetriNets.Proofs.Net.Removal
import PetriNets.Proofs.Ring.Net
import PetriNets.Proofs.Ring.Firing
import PetriNets.Proofs.Ring.Graph
import PetriNets.Proofs.Ring.Cycle
import PetriNets.Proofs.TransitionSystem.FreshNames
import PetriNets.Proofs.Graph.Distance
import PetriNets.Proofs.TransitionSystem.Reachability
import PetriNets.Proofs.TransitionSystem.Determinism
import PetriNets.Proofs.Cycles.Checks
import PetriNets.Proofs.Parikh.Sequences
import PetriNets.Proofs.Cycles.Enumeration
