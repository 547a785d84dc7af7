import PetriNets.Config
import PetriNets.Extensions
import PetriNets.Format.Basic
import PetriNets.Parikh
import PetriNets.Table

/-!
# Documents of single values

How token counts, markings, Parikh vectors, tables of words, maps of texts and analysis settings are
written to documents and read from them.
-/

namespace PetriNets

instance : Documented Token where
  encode w
    | .finite n => w.case "Finite" (some (w.natural n))
    | .omega => w.case "Omega" none
  decode? r v := do
    match ← r.case? v with
    | ("Finite", some n) => return .finite (← r.word? n)
    | ("Omega", none) => some .omega
    | _ => none

instance : Documented Marking where
  encode w m := w.wrapped "Marking" (w.items (m.tokens.map (Documented.encode w)))
  decode? r v := do
    return ⟨← r.list? (Documented.decode? r) (← r.wrapped? "Marking" v)⟩

instance : Documented ParikhVector where
  encode w v := w.mapping (v.entries.map fun e => (e.1, w.natural e.2))
  decode? r v := do
    let entries ← (← r.mapping? v).mapM fun e => return (e.1, ← r.word? e.2)
    return ⟨.ofList entries⟩

/-- A table of words is written as a plain list. -/
instance {tag : Char} : Documented (Table tag Nat) where
  encode w t := w.items (t.toList.map w.natural)
  decode? r v := do return .ofList (← r.list? r.word? v)

instance : Documented (OrderedMap String) where
  encode w m := w.mapping (m.entries.map fun e => (e.1, w.text e.2))
  decode? r v := do
    let entries ← (← r.mapping? v).mapM fun e => return (e.1, ← r.text? e.2)
    return .ofList entries

/-! ## Analysis settings -/

/-- The name of the order in documents. -/
def ExplorationOrder.documentName : ExplorationOrder → String
  | breadthFirst => "breadth-first"
  | depthFirst => "depth-first"

/-- The name of the mode in documents. -/
def CycleMode.documentName : CycleMode → String
  | allStates => "all-states"
  | initialState => "initial-state"

instance : Documented ExplorationOrder where
  encode w o := w.case o.documentName none
  decode? r v := do
    match ← r.case? v with
    | ("breadth-first", none) => some .breadthFirst
    | ("depth-first", none) => some .depthFirst
    | _ => none

instance : Documented CycleMode where
  encode w m := w.case m.documentName none
  decode? r v := do
    match ← r.case? v with
    | ("all-states", none) => some .allStates
    | ("initial-state", none) => some .initialState
    | _ => none

instance : Documented AnalysisConfig where
  encode w c := w.record "AnalysisConfig"
    [("state_limit", w.option (c.stateLimit.map w.natural)),
     ("exploration_order", Documented.encode w c.explorationOrder),
     ("cycle_mode", Documented.encode w c.cycleMode),
     ("timeout_ms", w.option (c.timeoutMs.map w.natural))]
  decode? r v := do
    let fields := ["state_limit", "exploration_order", "cycle_mode", "timeout_ms"]
    match ← r.record? "AnalysisConfig" fields v with
    | [limit, order, mode, timeout] => do
      let base : AnalysisConfig := default
      return {
        stateLimit := ← defaulted? base.stateLimit (r.optional? r.word?) limit
        explorationOrder := ← defaulted? base.explorationOrder (Documented.decode? r) order
        cycleMode := ← defaulted? base.cycleMode (Documented.decode? r) mode
        timeoutMs := ← defaulted? base.timeoutMs (r.optional? r.word?) timeout }
    | _ => none

/-! ## Extension tables -/

/-- What a document writes out of an extension table. -/
def Extensions.exported (t : Extensions) : OrderedMap String :=
  .ofList (t.persistent.map fun e => (e.key, e.value.written))

/-- The extension table that a document gives its owner. -/
def Extensions.imported (m : OrderedMap String) : Extensions :=
  m.entries.foldl (fun t e => t.put ⟨e.1, .text e.2, .persist⟩) ∅

/-- The extensions as a field of a record, which is absent when there are none. -/
def extensionField {V : Type} (w : Writer V) (m : OrderedMap String) : List (String × V) :=
  if m.isEmpty then [] else [("extensions", Documented.encode w m)]

/-- Reads the extensions from a field of a record. -/
def extensions? {V : Type} (r : Reader V) : Option V → Option (OrderedMap String) :=
  defaulted? ∅ (Documented.decode? r)

end PetriNets
