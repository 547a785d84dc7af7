import Mathlib.Data.Set.Function
import PetriNets.Proofs.Boundedness
import PetriNets.Proofs.Coverability.Reachability
import PetriNets.Proofs.TransitionSystem.Built

/-!
# The reachability system of a net

The system of a coverability graph has a state for each node and, for each edge, an arc with the label
of its transition; edges that agree in this share an arc (`hasArc_system_iff`). For a bounded net this
makes its states the reachable markings and its arcs the firings between them
(`reachabilitySystem_exact`).
-/

namespace PetriNets

theorem Net.exists_transitionAt?_of_step {net : Net} {cap : Capacity} {m m' : Marking} {t : TransitionId}
    (h : net.incidence.Step cap m t m') : ∃ transition, net.transitionAt? t = some transition := by
  obtain ⟨a, ha, -⟩ := h
  exact ⟨_, List.getElem?_eq_getElem (Net.arcs_get?_eq_some_iff.1 ha).1⟩

namespace TransitionSystem

/-- The marking that a state carries. -/
def marking? (ts : TransitionSystem) (v : String) : Option Marking :=
  match (ts.state v).toOption.bind fun s => s.extensions.get? "marking" with
  | some (.marking m) => some m
  | _ => none

end TransitionSystem

namespace CoverabilityGraph

variable {g : CoverabilityGraph} {ts : TransitionSystem} {v w l : String}

/-! ## States -/

theorem foldl_addStateOf (es : List (NodeId × CoverNode)) (h : ts.WellFormed)
    (hnew : (ts.stateIds ++ es.map fun e => stateId e.1).Nodup) :
    (es.foldl addStateOf ts).WellFormed ∧
      (es.foldl addStateOf ts).states = ts.states ++ es.map (fun e => stateOf e.1 e.2) ∧
      (es.foldl addStateOf ts).arcs = ts.arcs ∧ (es.foldl addStateOf ts).initial = ts.initial := by
  induction es generalizing ts with
  | nil => exact ⟨h, (List.append_nil _).symm, rfl, rfl⟩
  | cons e es ih =>
    have hid : stateId e.1 ∉ ts.stateIds := by
      intro hmem
      exact (List.nodup_append.1 hnew).2.2 _ hmem _ List.mem_cons_self rfl
    have hadd : ts.addState (stateOf e.1 e.2) = .ok (addStateOf ts e) := by
      unfold addStateOf TransitionSystem.addState
      rw [Graph.insertNode_eq_ok_iff.2 ⟨hid, rfl⟩]
      rfl
    obtain ⟨hwell, hstates, harcs, hinitial⟩ := h.addState hadd
    have hids : (addStateOf ts e).stateIds = ts.stateIds ++ [stateId e.1] := by
      show (addStateOf ts e).states.map Node.id = _
      rw [hstates, List.map_append]
      rfl
    obtain ⟨hwell', hstates', harcs', hinitial'⟩ := ih hwell (by
      rw [hids, List.append_assoc]
      exact hnew)
    refine ⟨hwell', ?_, harcs'.trans harcs, hinitial'.trans hinitial⟩
    rw [List.foldl_cons, hstates', hstates, List.append_assoc]
    rfl

/-! ## Arcs -/

theorem arcOf_eq_of_key_eq {e e' : CoverEdge} (h : (g.arcOf e).key = (g.arcOf e').key) :
    g.arcOf e = g.arcOf e' :=
  congrArg (fun key => (⟨key, (), ∅⟩ : Arc)) h

/-- Nothing but an arc that is there already stands in the way of the arc of an edge. -/
theorem addArc_eq_error_iff (h : ts.WellFormed) {e : CoverEdge}
    (hsource : stateId e.source ∈ ts.stateIds) (htarget : stateId e.target ∈ ts.stateIds)
    {err : GraphError} : ts.addArc (g.arcOf e) = .error err ↔
      (g.arcOf e).key ∈ ts.graph.keys ∧ .duplicateEdge (g.arcOf e).key = err := by
  unfold TransitionSystem.addArc
  by_cases hkey : (g.arcOf e).key ∈ ts.graph.keys
  · rw [Graph.insertEdge_eq_duplicateEdge hsource htarget hkey]
    exact ⟨fun herr => ⟨hkey, Except.error.inj herr⟩, fun herr => congrArg Except.error herr.2⟩
  · rw [(Graph.insertEdge_eq_ok_iff h.graph).2 ⟨hsource, htarget, hkey, rfl⟩]
    exact ⟨nofun, fun herr => absurd herr.1 hkey⟩

theorem arcs_addArcOf (h : ts.WellFormed) {e : CoverEdge} (hsource : stateId e.source ∈ ts.stateIds)
    (htarget : stateId e.target ∈ ts.stateIds) :
    (g.addArcOf ts e).WellFormed ∧ (g.addArcOf ts e).states = ts.states ∧
      (g.addArcOf ts e).arcs =
        if (g.arcOf e).key ∈ ts.graph.keys then ts.arcs else ts.arcs ++ [g.arcOf e] := by
  cases hadd : ts.addArc (g.arcOf e) with
  | ok ts' =>
    have hnew : (g.arcOf e).key ∉ ts.graph.keys := fun hkey => by
      rw [(addArc_eq_error_iff h hsource htarget).2 ⟨hkey, rfl⟩] at hadd
      cases hadd
    have hts' : g.addArcOf ts e = ts' := by
      unfold addArcOf
      rw [hadd]
      rfl
    obtain ⟨hwell, hstates, harcs, -⟩ := h.addArc (Option.some_ne_none _) hadd
    rw [hts', if_neg hnew]
    exact ⟨hwell, hstates, harcs⟩
  | error err =>
    have hts : g.addArcOf ts e = ts := by
      unfold addArcOf
      rw [hadd]
      rfl
    rw [hts, if_pos ((addArc_eq_error_iff h hsource htarget).1 hadd).1]
    exact ⟨h, rfl, rfl⟩

/-- The system when the states are there and the arcs of some of the edges. -/
def systemAfter (g : CoverabilityGraph) (es : List CoverEdge) : TransitionSystem :=
  es.foldl g.addArcOf (g.nodes.entries.foldl addStateOf (.empty g.name))

theorem map_fst_entries (g : CoverabilityGraph) :
    g.nodes.entries.map (fun e => stateId e.1) = (List.range g.nodeCount).map stateName := by
  rw [← Function.comp_def stateId Prod.fst, ← List.map_map, Table.map_fst_entries]
  exact List.map_map

theorem stateIds_of_states (h : ts.states = g.nodes.entries.map fun e => stateOf e.1 e.2) :
    ts.stateIds = (List.range g.nodeCount).map stateName := by
  rw [← map_fst_entries]
  show ts.states.map Node.id = _
  rw [h, List.map_map]
  rfl

theorem stateId_mem_of_states (h : ts.states = g.nodes.entries.map fun e => stateOf e.1 e.2) {i : NodeId}
    (hi : i.index < g.nodeCount) : stateId i ∈ ts.stateIds := by
  rw [stateIds_of_states h]
  exact List.mem_map_of_mem (List.mem_range.2 hi)

theorem mem_keys_iff_of_arcs {es : List CoverEdge} (h : ts.arcs = (es.map g.arcOf).eraseDups)
    {e : CoverEdge} : (g.arcOf e).key ∈ ts.graph.keys ↔ g.arcOf e ∈ es.map g.arcOf := by
  have hkeys : ts.graph.keys = (es.map g.arcOf).eraseDups.map Edge.key := congrArg _ h
  rw [hkeys, List.mem_map]
  simp only [List.mem_eraseDups]
  constructor
  · rintro ⟨a, ha, hkey⟩
    obtain ⟨e', he', rfl⟩ := List.mem_map.1 ha
    exact arcOf_eq_of_key_eq hkey ▸ ha
  · exact fun ha => ⟨_, ha, rfl⟩

/-- There is an arc for each of the edges, where its triple occurs first. -/
theorem systemAfter_spec (es : List CoverEdge)
    (hends : ∀ e ∈ es, e.source.index < g.nodeCount ∧ e.target.index < g.nodeCount) :
    (g.systemAfter es).WellFormed ∧
      (g.systemAfter es).states = g.nodes.entries.map (fun e => stateOf e.1 e.2) ∧
      (g.systemAfter es).arcs = (es.map g.arcOf).eraseDups := by
  induction es using List.reverseRecOn with
  | nil =>
    have hnames : ((List.range g.nodeCount).map stateName).Nodup :=
      List.nodup_range.map stateName_injective
    obtain ⟨hwell, hstates, harcs, -⟩ := foldl_addStateOf g.nodes.entries
      (TransitionSystem.wellFormed_empty g.name) (by rwa [map_fst_entries])
    exact ⟨hwell, hstates, harcs⟩
  | append_singleton es e ih =>
    obtain ⟨hwell, hstates, harcs⟩ := ih fun e he => hends e (List.mem_append_left _ he)
    obtain ⟨hsource, htarget⟩ := hends e (List.mem_append_right _ List.mem_cons_self)
    obtain ⟨hwell', hstates', harcs'⟩ := arcs_addArcOf (g := g) hwell
      (stateId_mem_of_states hstates hsource) (stateId_mem_of_states hstates htarget)
    have hconcat : g.systemAfter (es ++ [e]) = g.addArcOf (g.systemAfter es) e :=
      List.foldl_concat _ _ _ _
    rw [hconcat]
    refine ⟨hwell', hstates'.trans hstates, ?_⟩
    rw [harcs', harcs, List.map_append, List.map_singleton, eraseDups_concat]
    exact if_congr (mem_keys_iff_of_arcs harcs) rfl rfl

/-! ## The whole system -/

/-- The states are those of the nodes, the arcs those of the edges. -/
theorem system_spec (hroot : 0 < g.nodeCount)
    (hends : ∀ e ∈ g.edges, e.source.index < g.nodeCount ∧ e.target.index < g.nodeCount) :
    g.system.WellFormed ∧
      g.system.states = g.nodes.entries.map (fun e => stateOf e.1 e.2) ∧
      g.system.initial = some (stateName 0) ∧
      g.system.arcs = (g.edges.toList.map g.arcOf).eraseDups := by
  obtain ⟨hwell, hstates, harcs⟩ := systemAfter_spec (g := g) g.edges.toList
    fun e he => hends e (Array.mem_toList_iff.1 he)
  have hset := hwell.setInitialState_of_mem (stateId_mem_of_states hstates (i := initial) hroot)
  have hsystem : g.system = { g.systemAfter g.edges.toList with initial := some (stateId initial) } := by
    show ((g.systemAfter g.edges.toList).setInitialState (stateId initial)).toOption.getD _ = _
    rw [hset]
    rfl
  rw [hsystem]
  exact ⟨(hwell.setInitialState hset).1, hstates, rfl, harcs⟩

section Exact

variable {net : Net} {cap : Capacity} {rounds : Nat} {config : AnalysisConfig} {m : Marking}
  (h : exploreWithin cap rounds config net = .ok g)
include h

theorem ends_lt_of_mem_edges {e : CoverEdge} (he : e ∈ g.edges) :
    e.source.index < g.nodeCount ∧ e.target.index < g.nodeCount := by
  obtain ⟨n, n', hn, hn'⟩ := exists_ends_of_mem_edges h he
  exact ⟨Table.index_lt_of_get? hn, Table.index_lt_of_get? hn'⟩

theorem system_spec_of_explore : g.system.WellFormed ∧
      g.system.states = g.nodes.entries.map (fun e => stateOf e.1 e.2) ∧
      g.system.initial = some (stateName 0) ∧
      g.system.arcs = (g.edges.toList.map g.arcOf).eraseDups := by
  refine system_spec ?_ fun e he => ends_lt_of_mem_edges h he
  obtain ⟨n, hn, -⟩ := exists_root h
  exact Table.index_lt_of_get? hn

theorem stateIds_system : g.system.stateIds = (List.range g.nodeCount).map stateName := by
  obtain ⟨-, hstates, -, -⟩ := system_spec_of_explore h
  exact stateIds_of_states hstates

/-- A state carries the marking of its node. -/
theorem marking?_system_eq_some_iff : g.system.marking? v = some m ↔
    ∃ i n, g.nodes.get? i = some n ∧ stateId i = v ∧ n.marking = m := by
  obtain ⟨hwell, hstates, -, -⟩ := system_spec_of_explore h
  have hstate : ∀ s, g.system.state v = .ok s ↔
      ∃ i n, g.nodes.get? i = some n ∧ stateId i = v ∧ stateOf i n = s := by
    intro s
    refine hwell.graph.node_eq_ok_iff.trans ?_
    show s ∈ g.system.states ∧ s.id = v ↔ _
    rw [hstates, List.mem_map]
    constructor
    · rintro ⟨⟨⟨i, n⟩, hmem, rfl⟩, hid⟩
      exact ⟨i, n, Table.mem_entries.1 hmem, hid, rfl⟩
    · rintro ⟨i, n, hn, hid, rfl⟩
      exact ⟨⟨⟨i, n⟩, Table.mem_entries.2 hn, rfl⟩, hid⟩
  constructor
  · intro hm
    unfold TransitionSystem.marking? at hm
    cases hs : g.system.state v with
    | error err =>
      rw [hs] at hm
      cases hm
    | ok s =>
      obtain ⟨i, n, hn, hid, rfl⟩ := (hstate s).1 hs
      rw [hs] at hm
      exact ⟨i, n, hn, hid, Option.some.inj hm⟩
  · rintro ⟨i, n, hn, hid, rfl⟩
    unfold TransitionSystem.marking?
    rw [(hstate _).2 ⟨i, n, hn, hid, rfl⟩]
    rfl

/-- An arc stands for an edge between nodes. -/
theorem hasArc_system_iff : g.system.HasArc v l w ↔
    ∃ i j t, ⟨i, j, t⟩ ∈ g.edges ∧ stateId i = v ∧ stateId j = w ∧ (g.label? t).getD "" = l := by
  obtain ⟨-, -, -, harcs⟩ := system_spec_of_explore h
  have hkeys : g.system.graph.keys = (g.edges.toList.map g.arcOf).eraseDups.map Edge.key :=
    congrArg _ harcs
  unfold TransitionSystem.HasArc
  rw [hkeys]
  simp only [List.mem_map, List.mem_eraseDups, Array.mem_toList_iff]
  constructor
  · rintro ⟨_, ⟨⟨i, j, t⟩, hedge, rfl⟩, hkey⟩
    cases hkey
    exact ⟨i, j, t, hedge, rfl, rfl, rfl⟩
  · rintro ⟨i, j, t, hedge, rfl, rfl, rfl⟩
    exact ⟨_, ⟨⟨i, j, t⟩, hedge, rfl⟩, rfl⟩

theorem label?_eq (t : TransitionId) : g.label? t = (net.transitionAt? t).map Transition.label := by
  obtain ⟨x, -, rfl⟩ := exploreWithin_eq_ok_iff.1 h
  show (Table.ofList (net.transitions.map Transition.label)).get? t = _
  rw [Table.get?_eq, Table.toList_ofList, List.getElem?_map]
  rfl

theorem mem_stateIds_system_iff : v ∈ g.system.stateIds ↔
    ∃ i n, g.nodes.get? i = some n ∧ stateId i = v := by
  rw [stateIds_system h, List.mem_map]
  constructor
  · rintro ⟨i, hi, rfl⟩
    obtain ⟨n, hn⟩ := Table.exists_get?_of_lt (i := ⟨i⟩) (List.mem_range.1 hi)
    exact ⟨⟨i⟩, n, hn, rfl⟩
  · rintro ⟨i, n, hn, rfl⟩
    exact ⟨i.index, List.mem_range.2 (Table.index_lt_of_get? hn), rfl⟩

/-! ## Without `ω` -/

variable (homega : g.hasOmega = false)
include homega

/-- States are to reachable markings as one to one. -/
theorem bijOn_marking?_system :
    Set.BijOn g.system.marking? {v | v ∈ g.system.stateIds} (some '' net.reachable) := by
  refine ⟨fun v hv => ?_, fun v hv w hw hvw => ?_, ?_⟩
  · obtain ⟨i, n, hn, rfl⟩ := (mem_stateIds_system_iff h).1 hv
    rw [(marking?_system_eq_some_iff h).2 ⟨i, n, hn, rfl, rfl⟩]
    exact ⟨n.marking, (hasMarking_iff_mem_reachable h homega).1 (hasMarking_of_get? hn), rfl⟩
  · obtain ⟨i, n, hn, rfl⟩ := (mem_stateIds_system_iff h).1 hv
    have hm := (marking?_system_eq_some_iff h).2 ⟨i, n, hn, rfl, rfl⟩
    rw [hvw] at hm
    obtain ⟨j, n', hn', rfl, hmarking⟩ := (marking?_system_eq_some_iff h).1 hm
    rw [id_eq_of_marking_eq h hn hn' hmarking.symm]
  · rintro _ ⟨m, hm, rfl⟩
    obtain ⟨i, n, hi, rfl⟩ := exists_node ((hasMarking_iff_mem_reachable h homega).2 hm)
    exact ⟨stateId i, (mem_stateIds_system_iff h).2 ⟨i, n, hi, rfl⟩,
      (marking?_system_eq_some_iff h).2 ⟨i, n, hi, rfl, rfl⟩⟩

/-- Arcs are the firings between the markings of states. -/
theorem hasArc_system_iff_fire : g.system.HasArc v l w ↔ ∃ m m' t,
    g.system.marking? v = some m ∧ g.system.marking? w = some m' ∧
      (net.transitionAt? t).map Transition.label = some l ∧
      net.fireWithin cap m (.number t) = .ok m' := by
  simp only [hasArc_system_iff h, label?_eq h, marking?_system_eq_some_iff h, Net.fireWithin_eq_ok_iff]
  have hlabel : ∀ {m m' t}, net.incidence.Step cap m t m' →
      ((net.transitionAt? t).map Transition.label = some l ↔
        ((net.transitionAt? t).map Transition.label).getD "" = l) := by
    intro m m' t hstep
    obtain ⟨transition, htransition⟩ := Net.exists_transitionAt?_of_step hstep
    rw [htransition]
    exact Option.some_inj
  constructor
  · rintro ⟨i, j, t, hedge, rfl, rfl, hl⟩
    obtain ⟨n, n', hi, hj⟩ := exists_ends_of_mem_edges h hedge
    have hstep := (mem_edges_iff h homega hi hj).1 hedge
    have hm : n.marking ∈ net.reachable :=
      (hasMarking_iff_mem_reachable h homega).1 (hasMarking_of_get? hi)
    exact ⟨n.marking, n'.marking, t, ⟨i, n, hi, rfl, rfl⟩, ⟨j, n', hj, rfl, rfl⟩,
      (hlabel hstep).2 hl, Net.size_of_mem_reachable hm, hstep⟩
  · rintro ⟨_, _, t, ⟨i, n, hi, rfl, rfl⟩, ⟨j, n', hj, rfl, rfl⟩, hl, -, hstep⟩
    exact ⟨i, j, t, (mem_edges_iff h homega hi hj).2 hstep, rfl, rfl, (hlabel hstep).1 hl⟩

theorem mem_reachableStates_system_iff : v ∈ g.system.reachableStates ↔ v ∈ g.system.stateIds := by
  obtain ⟨hwell, -, hinitial, -⟩ := system_spec_of_explore h
  rw [hwell.mem_reachableStates_iff hinitial]
  constructor
  · intro hpath
    cases hpath with
    | refl => exact hwell.initial_mem _ hinitial
    | tail _ hlast =>
      obtain ⟨l, ha⟩ := hlast
      exact (hwell.mem_of_hasArc ha).2
  · intro hv
    obtain ⟨i, n, hn, rfl⟩ := (mem_stateIds_system_iff h).1 hv
    refine (reachable_node h homega hn).lift stateId fun i j hij => ?_
    obtain ⟨t, hedge⟩ := hij
    exact ⟨_, (hasArc_system_iff h).2 ⟨i, j, t, hedge, rfl, rfl, rfl⟩⟩

end Exact

variable {net : Net} {rounds : Nat} {config : AnalysisConfig}

theorem reachabilitySystem_eq_ok_iff (h : buildWithin rounds config net = .ok g) :
    g.reachabilitySystem = .ok ts ↔ g.hasOmega = false ∧ g.system = ts := by
  rw [← witnesses_eq_nil_iff h]
  unfold reachabilitySystem
  cases g.witnesses with
  | nil => exact ⟨fun hts => ⟨rfl, Except.ok.inj hts⟩, fun hts => congrArg _ hts.2⟩
  | cons w ws => exact ⟨nofun, fun hts => nomatch hts.1⟩

/-- The reachability system is exact. There is one if and only if no node holds `ω`, and this is so if
and only if the net has finitely many reachable markings. Then its states correspond one to one to
these markings by what they carry, the first of them to the initial marking; arcs with a label are
firings of transitions with that label; every state can be reached; and the firing sequence of each
node leads to its marking. -/
theorem reachabilitySystem_exact (h : buildWithin rounds config net = .ok g) :
    ((∃ ts, g.reachabilitySystem = .ok ts) ↔ g.hasOmega = false) ∧
    (g.hasOmega = false ↔ net.reachable.Finite) ∧
    ∀ ts, g.reachabilitySystem = .ok ts →
      ts.stateIds = (List.range g.nodeCount).map stateName ∧
      Set.BijOn ts.marking? {v | v ∈ ts.stateIds} (some '' net.reachable) ∧
      ts.initialState?.map Node.id = some (stateName 0) ∧
      ts.marking? (stateName 0) = some net.initialMarking ∧
      (∀ v l w, ts.HasArc v l w ↔ ∃ m m' t, ts.marking? v = some m ∧ ts.marking? w = some m' ∧
        (net.transitionAt? t).map Transition.label = some l ∧ net.fire m (.number t) = .ok m') ∧
      (∀ v, v ∈ ts.reachableStates ↔ v ∈ ts.stateIds) ∧
      ∀ i n, g.nodes.get? i = some n → ts.marking? (stateName i.index) = some n.marking ∧
        net.fireSequence net.initialMarking ((g.firingSequence i).map .number) = .ok n.marking := by
  refine ⟨?_, (finite_reachable_iff h).symm, fun ts hts => ?_⟩
  · simp only [reachabilitySystem_eq_ok_iff h, exists_and_left, exists_eq', and_true]
  · obtain ⟨homega, rfl⟩ := (reachabilitySystem_eq_ok_iff h).1 hts
    obtain ⟨hwell, -, hinitial, -⟩ := system_spec_of_explore h
    obtain ⟨root, hroot, hmarking⟩ := exists_root h
    obtain ⟨state, hstate, hid⟩ := hwell.exists_initialState? hinitial
    refine ⟨stateIds_system h, bijOn_marking?_system h homega, ?_,
      (marking?_system_eq_some_iff h).2 ⟨initial, root, hroot, rfl, hmarking⟩,
      fun v l w => hasArc_system_iff_fire h homega,
      fun v => mem_reachableStates_system_iff h homega, fun i n hi =>
      ⟨(marking?_system_eq_some_iff h).2 ⟨i, n, hi, rfl, rfl⟩,
        fireSequence_firingSequence h homega hi⟩⟩
    rw [hstate, Option.map_some, hid]

/-- A lamp with two buttons that light it and one that puts it out. -/
def lampNet : Except GraphError Net := do
  let (_, net) ← (Net.empty "lamp").addPlace ⟨"off", 1, ∅⟩
  let (_, net) ← net.createPlace "on"
  let (_, net) ← net.addTransition ⟨"left", "light", ∅⟩
  let (_, net) ← net.addTransition ⟨"right", "light", ∅⟩
  let (_, net) ← net.createTransition "out"
  let net ← net.createFlow "off" "left" 1
  let net ← net.createFlow "left" "on" 1
  let net ← net.createFlow "off" "right" 1
  let net ← net.createFlow "right" "on" 1
  let net ← net.createFlow "on" "out" 1
  net.createFlow "out" "off" 1

/-- The two buttons that light the lamp share an arc. -/
theorem reachabilitySystem_exact_lampNet : ∃ net g ts, lampNet = .ok net ∧
    buildWithin 3 default net = .ok g ∧ g.reachabilitySystem = .ok ts ∧ g.edgeCount = 3 ∧
    ts.arcCount = 2 ∧ net.reachable.Finite ∧ ts.HasArc (stateName 0) "light" (stateName 1) ∧
    ∃ t, net.fire net.initialMarking (.number t) = .ok (.ofCounts [0, 1]) := by
  have hlamp : ∃ net g ts, lampNet = .ok net ∧ buildWithin 3 default net = .ok g ∧
      g.reachabilitySystem = .ok ts ∧ g.edgeCount = 3 ∧ ts.arcCount = 2 ∧
      ts.HasArc (stateName 0) "light" (stateName 1) ∧
      g.nodes.get? ⟨1⟩ = some ⟨.ofCounts [0, 1], [⟨⟨0⟩, .ofCounts [1, 0], ⟨0⟩⟩], .expanded [⟨2⟩]⟩ :=
    ⟨_, _, _, rfl, rfl, rfl, rfl, rfl, .head _, rfl⟩
  obtain ⟨net, g, ts, hnet, hg, hts, hedges, harcs, harc, hnode⟩ := hlamp
  obtain ⟨hok, hfinite, hexact⟩ := reachabilitySystem_exact hg
  obtain ⟨-, -, -, hinitial, hfire, -, hnodes⟩ := hexact ts hts
  obtain ⟨m, m', t, hm, hm', -, hstep⟩ := (hfire _ _ _).1 harc
  obtain rfl := Option.some.inj (hinitial.symm.trans hm)
  obtain rfl := Option.some.inj ((hnodes ⟨1⟩ _ hnode).1.symm.trans hm')
  exact ⟨net, g, ts, hnet, hg, hts, hedges, harcs, hfinite.1 (hok.1 ⟨ts, hts⟩), harc, t, hstep⟩

end CoverabilityGraph

end PetriNets
