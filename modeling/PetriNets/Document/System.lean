import PetriNets.Document.Values
import PetriNets.TransitionSystem.Basic

/-!
# Transition system documents

A transition system as it is written to a document: its states and arcs as plain records, and the
name of its initial state.
-/

namespace PetriNets

/-- A state in a document. -/
structure StateRecord where
  id : String
  extensions : OrderedMap String
deriving DecidableEq

/-- An arc in a document. -/
structure ArcRecord where
  source : String
  target : String
  label : String
  extensions : OrderedMap String
deriving DecidableEq

/-- A transition system in a document. -/
structure SystemDocument where
  name : String
  states : List StateRecord
  arcs : List ArcRecord
  initial : Option String
  extensions : OrderedMap String
deriving DecidableEq

/-! ## Documents and transition systems -/

/-- The record of a state. -/
def State.toRecord (s : State) : StateRecord := ⟨s.id, s.extensions.exported⟩

/-- The record of an arc. -/
def Arc.toRecord (a : Arc) : ArcRecord :=
  ⟨a.key.source, a.key.target, a.label, a.extensions.exported⟩

/-- The state of a record. -/
def StateRecord.toState (d : StateRecord) : State := ⟨d.id, (), .imported d.extensions⟩

/-- The arc of a record. -/
def ArcRecord.toArc (d : ArcRecord) : Arc :=
  ⟨⟨d.source, d.target, some d.label⟩, (), .imported d.extensions⟩

/-- The document of a transition system. -/
def TransitionSystem.toDocument (ts : TransitionSystem) : SystemDocument where
  name := ts.name
  states := ts.states.map State.toRecord
  arcs := ts.arcs.map Arc.toRecord
  initial := ts.initialState?.map Node.id
  extensions := ts.extensions.exported

/-- The transition system of a document: first the states, then the arcs, then the initial state. -/
def SystemDocument.toSystem (d : SystemDocument) : Except GraphError TransitionSystem := do
  let start := (TransitionSystem.empty d.name).modifyExtensions fun _ => .imported d.extensions
  let withStates ← d.states.foldlM (fun ts s => ts.addState s.toState) start
  let withArcs ← d.arcs.foldlM (fun ts a => ts.addArc a.toArc) withStates
  match d.initial with
  | some id => withArcs.setInitialState id
  | none => return withArcs

/-! ## Documents and formats -/

instance : Documented StateRecord where
  encode w d := w.record "StateDoc" ([("id", w.text d.id)] ++ extensionField w d.extensions)
  decode? r v := do
    match ← r.record? "StateDoc" ["id", "extensions"] v with
    | [id, ext] => return ⟨← required? r.text? id, ← extensions? r ext⟩
    | _ => none

instance : Documented ArcRecord where
  encode w d := w.record "ArcDoc"
    ([("from", w.text d.source), ("to", w.text d.target), ("label", w.text d.label)] ++
      extensionField w d.extensions)
  decode? r v := do
    match ← r.record? "ArcDoc" ["from", "to", "label", "extensions"] v with
    | [source, target, label, ext] =>
      return ⟨← required? r.text? source, ← required? r.text? target, ← required? r.text? label,
        ← extensions? r ext⟩
    | _ => none

instance : Documented SystemDocument where
  encode w d := w.record "TsDocument"
    ([("name", w.text d.name), ("states", w.items (d.states.map (Documented.encode w))),
      ("arcs", w.items (d.arcs.map (Documented.encode w)))] ++
      (d.initial.toList.map fun s => ("initial", w.option (some (w.text s)))) ++
      extensionField w d.extensions)
  decode? r v := do
    let fields := ["name", "states", "arcs", "initial", "extensions"]
    match ← r.record? "TsDocument" fields v with
    | [name, states, arcs, initial, ext] =>
      return ⟨← required? r.text? name,
        ← defaulted? [] (r.list? (Documented.decode? r)) states,
        ← defaulted? [] (r.list? (Documented.decode? r)) arcs,
        ← defaulted? none (r.optional? r.text?) initial,
        ← extensions? r ext⟩
    | _ => none

end PetriNets
