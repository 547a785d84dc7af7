import PetriNets.Incidence
import PetriNets.Net.Basic

/-!
# Firing transitions of a net

The firing rule of `Arcs` on a net with names: which arcs a transition has, which transitions a
marking enables, what firing one or several of them gives, and what can be wrong with that.
-/

namespace PetriNets

/-- A transition by number or by name. -/
inductive TransitionRef where
  | number (id : TransitionId)
  | name (id : String)
deriving DecidableEq

/-- Why a marking could not be used or a transition could not fire. -/
inductive FireError where
  | unknownTransition (transition : String)
  | notEnabled (transition place : String) (required : Nat) (available : Token)
  | notReverseEnabled (transition place : String) (required : Nat) (available : Token)
  /-- A marking that speaks of another number of places than the net has. -/
  | markingMismatch (expected found : Nat)
  /-- An initial marking that is not finite. -/
  | omegaToken (place : String)
  | tokenOverflow (transition place : String)
  /-- A step of a sequence that failed, by its position. -/
  | inSequence (position : Nat) (source : FireError)
deriving DecidableEq

/-- The wording of the error. -/
def FireError.message : FireError → String
  | unknownTransition t => s!"transition `{t}` does not exist"
  | notEnabled t p required available =>
    s!"transition `{t}` is not enabled: place `{p}` holds {available.text} token(s), " ++
      s!"{required} required"
  | notReverseEnabled t p required available =>
    s!"transition `{t}` cannot fire backwards: place `{p}` holds {available.text} token(s), " ++
      s!"{required} required"
  | markingMismatch expected found =>
    s!"marking has {found} entries but the net has {expected} places"
  | omegaToken p => s!"place `{p}` cannot hold ω tokens in an initial marking"
  | tokenOverflow t p => s!"firing `{t}` overflows the token count of place `{p}`"
  | inSequence position _ => s!"step {position} of the firing sequence failed"

namespace Net

/-- The arcs of the transition of a name; a name that is no node has none. -/
def arcsNamed (net : Net) (id : String) : Arcs where
  pre := ((net.graph.presetEdges id).toOption.getD []).filterMap fun f =>
    (net.placeIndex? f.key.source).map (·, f.data)
  post := ((net.graph.postsetEdges id).toOption.getD []).filterMap fun f =>
    (net.placeIndex? f.key.target).map (·, f.data)

/-- The arcs of all transitions. -/
def incidence (net : Net) : Incidence :=
  ⟨net.placeCount, .ofList (net.transitionIds.map net.arcsNamed)⟩

/-- The number of the transition that is meant. -/
def resolve (net : Net) : TransitionRef → Except FireError TransitionId
  | .number t =>
    if t.index < net.transitionCount then .ok t else .error (.unknownTransition t.text)
  | .name id =>
    match net.transitionIndex? id with
    | some t => .ok t
    | none => .error (.unknownTransition id)

/-- The arcs of a transition. -/
def arcs (net : Net) (t : TransitionRef) : Except FireError Arcs := do
  return net.arcsNamed (net.transitionName (← net.resolve t))

/-- The change that firing a transition makes to each place it changes. -/
def effect (net : Net) (t : TransitionRef) : Except FireError (List (PlaceId × Int)) := do
  return (← net.arcs t).effect

/-- Refuses a marking that does not speak of the places of the net. -/
def checkMarking (net : Net) (m : Marking) : Except FireError Unit :=
  if m.size = net.placeCount then .ok ()
  else .error (.markingMismatch net.placeCount m.size)

/-- A fault of the firing rule in the names of the net. -/
def faultError (net : Net) (t : TransitionId) : StepFault → FireError
  | .starved p required available =>
    .notEnabled (net.transitionName t) (net.placeName p) required available
  | .overflow p => .tokenOverflow (net.transitionName t) (net.placeName p)

/-- A fault of the backward rule in the names of the net. -/
def reverseFaultError (net : Net) (t : TransitionId) : StepFault → FireError
  | .starved p required available =>
    .notReverseEnabled (net.transitionName t) (net.placeName p) required available
  | .overflow p => .tokenOverflow (net.transitionName t) (net.placeName p)

/-- Whether a marking enables a transition. -/
def isEnabled (net : Net) (m : Marking) (t : TransitionRef) : Except FireError Bool := do
  net.checkMarking m
  return (← net.arcs t).isEnabled m

/-- The transitions that a marking enables, in order. A place that the marking does not speak of
counts as empty. -/
def enabledTransitions (net : Net) (m : Marking) : List TransitionId :=
  (Id.upTo net.transitionCount).filter fun t => (net.arcsNamed (net.transitionName t)).isEnabled m

/-- Fires a transition where every place has the given capacity. -/
def fireWithin (cap : Capacity) (net : Net) (m : Marking) (t : TransitionRef) :
    Except FireError Marking := do
  net.checkMarking m
  let id ← net.resolve t
  ((net.arcsNamed (net.transitionName id)).fire cap m).mapError (net.faultError id)

/-- Fires a transition; counts are kept in 64-bit words. -/
def fire (net : Net) (m : Marking) (t : TransitionRef) : Except FireError Marking :=
  net.fireWithin .word m t

/-- Undoes the firing of a transition where every place has the given capacity. -/
def reverseFireWithin (cap : Capacity) (net : Net) (m : Marking) (t : TransitionRef) :
    Except FireError Marking := do
  net.checkMarking m
  let id ← net.resolve t
  ((net.arcsNamed (net.transitionName id)).reverseFire cap m).mapError (net.reverseFaultError id)

/-- Undoes the firing of a transition; counts are kept in 64-bit words. -/
def reverseFire (net : Net) (m : Marking) (t : TransitionRef) : Except FireError Marking :=
  net.reverseFireWithin .word m t

/-- Fires the transitions of a sequence whose first one has the given position. -/
def fireSequenceFrom (cap : Capacity) (net : Net) (position : Nat) (m : Marking) :
    List TransitionRef → Except FireError Marking
  | [] => .ok m
  | t :: rest => do
    let next ← (net.fireWithin cap m t).mapError (.inSequence position)
    net.fireSequenceFrom cap (position + 1) next rest

/-- Fires a sequence from left to right where every place has the given capacity. -/
def fireSequenceWithin (cap : Capacity) (net : Net) (m : Marking) (ts : List TransitionRef) :
    Except FireError Marking := net.fireSequenceFrom cap 0 m ts

/-- Fires a sequence from left to right, up to the first failure. -/
def fireSequence (net : Net) (m : Marking) (ts : List TransitionRef) : Except FireError Marking :=
  net.fireSequenceWithin .word m ts

/-- Makes a finite marking the initial one. Where some place holds `ω` nothing is changed. -/
def setInitialMarking (net : Net) (m : Marking) : Except FireError Net := do
  net.checkMarking m
  let counts ← (net.placeIds.zip m.tokens).mapM fun e =>
    match e.2.finite? with
    | some n => .ok (e.1, n)
    | none => .error (.omegaToken e.1)
  return counts.foldl (fun net e => ⟨net.graph.modifyData e.1 fun _ => .place e.2⟩) net

end Net

end PetriNets
