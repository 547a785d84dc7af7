import PetriNets.Proofs.Extensions
import PetriNets.Proofs.Graph.Listed
import PetriNets.Proofs.TransitionSystem.Alike

/-!
# Transition system documents and the systems they describe

A document is accepted if it is `Valid`, and the system that is built lists what the document lists
(`toSystem_eq_ok_iff`). So what is accepted is written back as it was read. The document of a system that
has been built is valid, whatever was taken out of the system on the way, and describes a system that is
like it.
-/

namespace PetriNets

namespace SystemDocument

variable {d : SystemDocument} {ts : TransitionSystem}

def stateIds (d : SystemDocument) : List String := d.states.map StateRecord.id

/-- The names are unique, arcs lead from states to states, no two of them with the same ends and label,
and the initial state is one of the states. -/
structure Valid (d : SystemDocument) : Prop where
  nodup_ids : d.stateIds.Nodup
  ends : ∀ a ∈ d.arcs, a.source ∈ d.stateIds ∧ a.target ∈ d.stateIds
  nodup_arcs : (d.arcs.map fun a => (a.source, a.target, a.label)).Nodup
  initial : ∀ v, d.initial = some v → v ∈ d.stateIds

/-- The system with the states and the arcs of the document. -/
def system (d : SystemDocument) (initial : Option String) : TransitionSystem where
  graph := Listing.graph
    ⟨d.name, .imported d.extensions, d.states.map StateRecord.toState, d.arcs.map ArcRecord.toArc⟩
  initial := initial
  fresh := 0

theorem states_system (initial : Option String) :
    (d.system initial).states = d.states.map StateRecord.toState := Listing.nodes_graph _

theorem stateIds_system (initial : Option String) : (d.system initial).stateIds = d.stateIds := by
  show (d.system initial).states.map Node.id = _
  rw [states_system, List.map_map]
  rfl

/-! ## What is accepted -/

/-- Calls that change only the graph, one after the other. -/
theorem foldlM_withGraph {α β : Type} {f : Graph Unit Unit → β → Except GraphError (Graph Unit Unit)}
    (item : α → β) (as : List α) (ts : TransitionSystem) :
    as.foldlM (fun (ts : TransitionSystem) a => do
        return { ts with graph := ← f ts.graph (item a) }) ts =
      ((as.map item).foldlM f ts.graph).map fun g => { ts with graph := g } := by
  induction as generalizing ts with
  | nil => rfl
  | cons a as ih =>
    rw [List.foldlM_cons, List.map_cons, List.foldlM_cons]
    cases f ts.graph (item a) with
    | error e => rfl
    | ok g => exact ih { ts with graph := g }

theorem foldlM_addState (d : SystemDocument) :
    d.states.foldlM (fun ts s => ts.addState s.toState)
        ((TransitionSystem.empty d.name).modifyExtensions fun _ => .imported d.extensions) =
      (unlessFault (firstFault Listing.nodeFault? [] (d.states.map StateRecord.toState))
        (Listing.graph ⟨d.name, .imported d.extensions, d.states.map StateRecord.toState, []⟩)).map
        fun g => ⟨g, none, 0⟩ := by
  rw [← Listing.foldlM_insertNode]
  exact foldlM_withGraph StateRecord.toState d.states _

theorem foldlM_addArc (hids : d.stateIds.Nodup) :
    d.arcs.foldlM (fun ts a => ts.addArc a.toArc)
        ⟨Listing.graph ⟨d.name, .imported d.extensions, d.states.map StateRecord.toState, []⟩, none, 0⟩ =
      unlessFault (firstFault (Listing.edgeFault? d.stateIds) [] (d.arcs.map ArcRecord.toArc))
        (d.system none) := by
  have hnames : (d.states.map StateRecord.toState).map Node.id = d.stateIds := by
    rw [List.map_map]
    rfl
  refine (foldlM_withGraph ArcRecord.toArc d.arcs _).trans ?_
  dsimp only
  rw [Listing.foldlM_insertEdge _ _ (hnames.symm ▸ hids), hnames]
  cases firstFault (Listing.edgeFault? d.stateIds) [] (d.arcs.map ArcRecord.toArc) <;> rfl

theorem firstFault_arcs : firstFault (Listing.edgeFault? d.stateIds) [] (d.arcs.map ArcRecord.toArc) =
    none ↔ (∀ a ∈ d.arcs, a.source ∈ d.stateIds ∧ a.target ∈ d.stateIds) ∧
      (d.arcs.map fun a => (a.source, a.target, a.label)).Nodup := by
  have hkeys : (d.arcs.map ArcRecord.toArc).map Edge.key =
      (d.arcs.map fun a => (a.source, a.target, a.label)).map fun t => ⟨t.1, t.2.1, some t.2.2⟩ := by
    rw [List.map_map, List.map_map]
    rfl
  have hinjective : Function.Injective fun t : String × String × String =>
      (⟨t.1, t.2.1, some t.2.2⟩ : EdgeKey) := by
    rintro ⟨s, t, l⟩ ⟨s', t', l'⟩ heq
    cases heq
    rfl
  rw [Listing.firstFault_edgeFault?, List.forall_mem_map, hkeys, List.nodup_map_iff hinjective]
  rfl

theorem setInitialState_system {initial : Option String} {v : String} :
    (d.system initial).setInitialState v = .ok ts ↔ v ∈ d.stateIds ∧ d.system (some v) = ts := by
  have hslot : (∃ s, (d.system initial).graph.slot v = .ok s) ↔ v ∈ d.stateIds := by
    rw [Graph.exists_slot_iff]
    exact Iff.of_eq (congrArg (v ∈ ·) (stateIds_system initial))
  unfold TransitionSystem.setInitialState Graph.node
  rw [bind_eq_ok_iff, ← hslot]
  simp only [map_eq_ok_iff]
  constructor
  · rintro ⟨_, ⟨s, hs, rfl⟩, hts⟩
    exact ⟨⟨s, hs⟩, Except.ok.inj hts⟩
  · rintro ⟨⟨s, hs⟩, rfl⟩
    exact ⟨_, ⟨s, hs, rfl⟩, rfl⟩

theorem toSystem_eq_ok_iff : d.toSystem = .ok ts ↔ d.Valid ∧ d.system d.initial = ts := by
  have hnames : (d.states.map StateRecord.toState).map Node.id = d.stateIds := by
    rw [List.map_map]
    rfl
  unfold toSystem
  dsimp only
  rw [foldlM_addState]
  cases hstates : firstFault Listing.nodeFault? [] (d.states.map StateRecord.toState) with
  | some e =>
    constructor
    · nofun
    · rintro ⟨hvalid, -⟩
      rw [Listing.firstFault_nodeFault?.2 (hnames.symm ▸ hvalid.nodup_ids)] at hstates
      cases hstates
  | none =>
    have hids : d.stateIds.Nodup := hnames ▸ Listing.firstFault_nodeFault?.1 hstates
    show (d.arcs.foldlM (fun (ts : TransitionSystem) a => ts.addArc a.toArc) _ >>= _) = _ ↔ _
    rw [foldlM_addArc hids]
    cases harcs : firstFault (Listing.edgeFault? d.stateIds) [] (d.arcs.map ArcRecord.toArc) with
    | some e =>
      constructor
      · nofun
      · rintro ⟨hvalid, -⟩
        rw [firstFault_arcs.2 ⟨hvalid.ends, hvalid.nodup_arcs⟩] at harcs
        cases harcs
    | none =>
      obtain ⟨hends, hnodup⟩ := firstFault_arcs.1 harcs
      cases hinitial : d.initial with
      | none =>
        have hvalid : d.Valid := ⟨hids, hends, hnodup, fun v hv => nomatch hinitial.symm.trans hv⟩
        exact ⟨fun h => ⟨hvalid, Except.ok.inj h⟩, fun h => congrArg Except.ok h.2⟩
      | some v =>
        show (d.system none).setInitialState v = _ ↔ _
        rw [setInitialState_system]
        constructor
        · rintro ⟨hv, hts⟩
          exact ⟨⟨hids, hends, hnodup, fun w hw => Option.some.inj (hinitial.symm.trans hw) ▸ hv⟩, hts⟩
        · rintro ⟨hvalid, hts⟩
          exact ⟨hvalid.initial v hinitial, hts⟩

/-! ## Writing back what was read -/

theorem toRecord_toState (s : StateRecord) : s.toState.toRecord = s := by
  unfold State.toRecord StateRecord.toState
  rw [Extensions.exported_imported]

theorem toRecord_toArc (a : ArcRecord) : a.toArc.toRecord = a := by
  unfold Arc.toRecord ArcRecord.toArc
  rw [Extensions.exported_imported]
  rfl

theorem toDocument_system (h : (d.system d.initial).WellFormed) :
    (d.system d.initial).toDocument = d := by
  have hstates : (d.system d.initial).states.map State.toRecord = d.states := by
    rw [states_system, List.map_map]
    exact (List.map_congr_left fun s _ => toRecord_toState s).trans (List.map_id d.states)
  have harcs : (d.system d.initial).arcs.map Arc.toRecord = d.arcs := by
    show (d.arcs.map ArcRecord.toArc).map Arc.toRecord = d.arcs
    rw [List.map_map]
    exact (List.map_congr_left fun a _ => toRecord_toArc a).trans (List.map_id d.arcs)
  have hextensions : (d.system d.initial).extensions.exported = d.extensions :=
    Extensions.exported_imported d.extensions
  unfold TransitionSystem.toDocument
  rw [hstates, harcs, hextensions, h.map_id_initialState?]
  rfl

/-! ## Reading what was written -/

theorem stateIds_toDocument (ts : TransitionSystem) : ts.toDocument.stateIds = ts.stateIds := by
  unfold stateIds TransitionSystem.stateIds TransitionSystem.toDocument Graph.nodeIds
  rw [List.map_map]
  rfl

theorem valid_toDocument (h : ts.WellFormed) : ts.toDocument.Valid := by
  refine ⟨?_, fun a ha => ?_, ?_, fun v hv => ?_⟩
  · rw [stateIds_toDocument]
    exact h.graph.nodup_nodeIds
  · obtain ⟨arc, harc, rfl⟩ := List.mem_map.1 ha
    rw [stateIds_toDocument]
    exact h.graph.ends_mem arc.key (List.mem_map_of_mem harc)
  · show ((ts.arcs.map Arc.toRecord).map fun a => (a.source, a.target, a.label)).Nodup
    have hkeys : ts.arcs.map Edge.key = ((ts.arcs.map Arc.toRecord).map
        fun a => (a.source, a.target, a.label)).map fun t => ⟨t.1, t.2.1, some t.2.2⟩ := by
      rw [List.map_map, List.map_map]
      exact List.map_congr_left fun a ha => h.key_eq ha
    have hnodup : (ts.arcs.map Edge.key).Nodup := h.graph.nodup_keys
    rw [hkeys] at hnodup
    exact hnodup.of_map _
  · rw [stateIds_toDocument]
    exact h.initial_mem v (h.map_id_initialState? ▸ hv)

theorem alike_toDocument (h : ts.WellFormed) :
    ts.Alike (ts.toDocument.system ts.toDocument.initial) := by
  refine ⟨rfl, ?_, ?_, h.map_id_initialState?⟩
  · rw [stateIds_system, stateIds_toDocument]
  · show ((ts.arcs.map Arc.toRecord).map ArcRecord.toArc).map Edge.key = _
    rw [List.map_map, List.map_map]
    exact List.map_congr_left fun a ha => (h.key_eq ha).symm

/-- A document is accepted if it is valid, and then it is written as it was read; and the document of a
system that has been built gives a system with the same states, arcs and initial state, in the same order,
which gives the same answers. -/
theorem toSystem_faithful (d : SystemDocument) :
    ((∃ ts, d.toSystem = .ok ts) ↔ d.Valid) ∧ (∀ ts, d.toSystem = .ok ts → ts.toDocument = d) ∧
      ∀ ts : TransitionSystem, ts.Built →
        ∃ ts', ts.toDocument.toSystem = .ok ts' ∧ ts.Alike ts' ∧ ts.SameAnswers ts' := by
  refine ⟨?_, fun ts hts => ?_, fun ts hts => ?_⟩
  · simp only [toSystem_eq_ok_iff]
    exact ⟨fun ⟨_, h, _⟩ => h, fun h => ⟨_, h, rfl⟩⟩
  · have hwell := (TransitionSystem.built_of_toSystem hts).wellFormed
    obtain ⟨-, rfl⟩ := toSystem_eq_ok_iff.1 hts
    exact toDocument_system hwell
  · have hread : ts.toDocument.toSystem = .ok _ :=
      toSystem_eq_ok_iff.2 ⟨valid_toDocument hts.wellFormed, rfl⟩
    have halike := alike_toDocument hts.wellFormed
    exact ⟨_, hread, halike,
      halike.sameAnswers hts.wellFormed (TransitionSystem.built_of_toSystem hread).wellFormed⟩

/-- A toggle with unlabelled presses. It began in a state that was taken out, and got another one. -/
def toggle : Except GraphError TransitionSystem := do
  let (_, ts) ← (TransitionSystem.empty "toggle").createState (some "broken")
  let (_, ts) ← ts.createState (some "off")
  let (_, ts) ← ts.createState (some "on")
  let ts ← ts.createArc "off" "on" ""
  let ts ← ts.createArc "on" "off" ""
  let ts ← ts.createArc "broken" "off" "repair"
  let ts ← ts.setInitialState "broken"
  let (_, ts) ← ts.removeState "broken"
  ts.setInitialState "on"

theorem built_toggle (h : toggle = .ok ts) : ts.Built := by
  unfold toggle at h
  simp only [bind_eq_ok_iff] at h
  obtain ⟨_, h₁, _, h₂, _, h₃, _, h₄, _, h₅, _, h₆, _, h₇, _, h₈, h₉⟩ := h
  have hstates := (((TransitionSystem.Built.empty "toggle").createState h₁).createState h₂).createState h₃
  have harcs := ((hstates.addArc (Option.some_ne_none _) h₄).addArc (Option.some_ne_none _) h₅).addArc
    (Option.some_ne_none _) h₆
  exact ((harcs.setInitialState h₇).removeState h₈).setInitialState h₉

def toggleDocument : SystemDocument where
  name := "toggle"
  states := [⟨"off", ∅⟩, ⟨"on", .ofList [("lamp", "red")]⟩]
  arcs := [⟨"off", "on", "press", ∅⟩, ⟨"on", "off", "press", ∅⟩]
  initial := some "on"
  extensions := ∅

theorem toSystem_faithful_toggle :
    (∃ ts, toggleDocument.toSystem = .ok ts ∧ ts.toDocument = toggleDocument) ∧
    (¬ ∃ ts, SystemDocument.toSystem { toggleDocument with initial := some "broken" } = .ok ts) ∧
    ∃ ts ts', toggle = .ok ts ∧ ts.toDocument.toSystem = .ok ts' ∧ ts'.stateIds = ["off", "on"] ∧
      ts'.initial = some "on" ∧ ts'.reachableStates = ["on", "off"] := by
  obtain ⟨haccept, hwritten, hbuilt⟩ := toSystem_faithful toggleDocument
  obtain ⟨ts, hts⟩ := haccept.2 ⟨by decide, by decide, by decide, by decide⟩
  obtain ⟨hrefuse, -, -⟩ := toSystem_faithful { toggleDocument with initial := some "broken" }
  refine ⟨⟨ts, hts, hwritten ts hts⟩, fun h => ?_, ?_⟩
  · exact absurd ((hrefuse.1 h).initial "broken" rfl) (by decide)
  · obtain ⟨ts, htoggle⟩ : ∃ ts, toggle = .ok ts := ⟨_, rfl⟩
    obtain ⟨ts', hread, halike, hsame⟩ := hbuilt ts (built_toggle htoggle)
    have hseen : toggle.map (fun ts => (ts.stateIds, ts.initial, ts.reachableStates)) =
        .ok (["off", "on"], some "on", ["on", "off"]) := by decide
    rw [htoggle] at hseen
    simp only [Except.map, Except.ok.injEq, Prod.mk.injEq] at hseen
    rw [← halike.stateIds, ← halike.initial, ← hsame.reachableStates] at hseen
    exact ⟨ts, ts', htoggle, hread, hseen⟩

end SystemDocument

end PetriNets
