import PetriNets.Document.Values
import PetriNets.Net.Basic

/-!
# Net documents

A net as it is written to a document: its places, transitions and flows as plain records. A document
may describe something that is no net; what is wrong with it shows when the net is built.
-/

namespace PetriNets

/-- A place in a document. -/
structure PlaceRecord where
  id : String
  tokens : Nat
  extensions : OrderedMap String
deriving DecidableEq

/-- A transition in a document; without a label it is labelled with its name. -/
structure TransitionRecord where
  id : String
  label : Option String
  extensions : OrderedMap String
deriving DecidableEq

/-- A flow in a document. -/
structure FlowRecord where
  source : String
  target : String
  weight : Nat
  extensions : OrderedMap String
deriving DecidableEq

/-- A net in a document. -/
structure NetDocument where
  name : String
  places : List PlaceRecord
  transitions : List TransitionRecord
  flows : List FlowRecord
  extensions : OrderedMap String
deriving DecidableEq

/-! ## Documents and nets -/

/-- The record of a place. -/
def Place.toRecord (p : Place) : PlaceRecord := ⟨p.id, p.tokens, p.extensions.exported⟩

/-- The record of a transition. -/
def Transition.toRecord (t : Transition) : TransitionRecord :=
  ⟨t.id, if t.label = t.id then none else some t.label, t.extensions.exported⟩

/-- The record of a flow. -/
def Flow.toRecord (f : Flow) : FlowRecord :=
  ⟨f.key.source, f.key.target, f.data, f.extensions.exported⟩

/-- The place of a record. -/
def PlaceRecord.toPlace (d : PlaceRecord) : Place := ⟨d.id, d.tokens, .imported d.extensions⟩

/-- The transition of a record. -/
def TransitionRecord.toTransition (d : TransitionRecord) : Transition :=
  ⟨d.id, d.label.getD d.id, .imported d.extensions⟩

/-- The flow of a record. -/
def FlowRecord.toFlow (d : FlowRecord) : Flow :=
  ⟨⟨d.source, d.target, none⟩, d.weight, .imported d.extensions⟩

/-- The document of a net. -/
def Net.toDocument (net : Net) : NetDocument where
  name := net.name
  places := net.places.map Place.toRecord
  transitions := net.transitions.map Transition.toRecord
  flows := net.flows.map Flow.toRecord
  extensions := net.extensions.exported

/-- The net of a document: first the places, then the transitions, then the flows, each as if added
by hand, so that the first one that is not possible is reported. -/
def NetDocument.toNet (d : NetDocument) : Except GraphError Net := do
  let start := (Net.empty d.name).modifyExtensions fun _ => .imported d.extensions
  let withPlaces ← d.places.foldlM (fun net p => return (← Net.addPlace net p.toPlace).2) start
  let withTransitions ← d.transitions.foldlM
    (fun net t => return (← Net.addTransition net t.toTransition).2) withPlaces
  d.flows.foldlM (fun net f => net.addFlow f.toFlow) withTransitions

/-! ## Documents and formats -/

instance : Documented PlaceRecord where
  encode w d := w.record "PlaceDoc"
    ([("id", w.text d.id), ("tokens", w.natural d.tokens)] ++ extensionField w d.extensions)
  decode? r v := do
    match ← r.record? "PlaceDoc" ["id", "tokens", "extensions"] v with
    | [id, tokens, ext] =>
      return ⟨← required? r.text? id, ← defaulted? 0 r.word? tokens, ← extensions? r ext⟩
    | _ => none

instance : Documented TransitionRecord where
  encode w d := w.record "TransitionDoc"
    ([("id", w.text d.id)] ++
      (d.label.toList.map fun l => ("label", w.option (some (w.text l)))) ++
      extensionField w d.extensions)
  decode? r v := do
    match ← r.record? "TransitionDoc" ["id", "label", "extensions"] v with
    | [id, label, ext] =>
      return ⟨← required? r.text? id, ← defaulted? none (r.optional? r.text?) label,
        ← extensions? r ext⟩
    | _ => none

instance : Documented FlowRecord where
  encode w d := w.record "FlowDoc"
    ([("from", w.text d.source), ("to", w.text d.target), ("weight", w.natural d.weight)] ++
      extensionField w d.extensions)
  decode? r v := do
    match ← r.record? "FlowDoc" ["from", "to", "weight", "extensions"] v with
    | [source, target, weight, ext] =>
      return ⟨← required? r.text? source, ← required? r.text? target,
        ← defaulted? 1 r.word? weight, ← extensions? r ext⟩
    | _ => none

instance : Documented NetDocument where
  encode w d := w.record "NetDocument"
    ([("name", w.text d.name), ("places", w.items (d.places.map (Documented.encode w))),
      ("transitions", w.items (d.transitions.map (Documented.encode w))),
      ("flows", w.items (d.flows.map (Documented.encode w)))] ++
      extensionField w d.extensions)
  decode? r v := do
    let fields := ["name", "places", "transitions", "flows", "extensions"]
    match ← r.record? "NetDocument" fields v with
    | [name, places, transitions, flows, ext] =>
      return ⟨← required? r.text? name,
        ← defaulted? [] (r.list? (Documented.decode? r)) places,
        ← defaulted? [] (r.list? (Documented.decode? r)) transitions,
        ← defaulted? [] (r.list? (Documented.decode? r)) flows,
        ← extensions? r ext⟩
    | _ => none

end PetriNets
