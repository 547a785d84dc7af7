import PetriNets.Proofs.Net.InStep

/-!
# The reversed net

Reversing a net builds a new one, node by node and flow by flow, and no call of this is refused: names
are unique, the ends of each flow are there before it comes, and flows that are turned around are as
different as they were before (`WellFormed.exists_reversed`). The flows keep their order, so the rows of
a transition change places without being permuted (`arcsNamed_reversed`), and firing forwards in the
reversed net is firing backwards in the net even in what it blames (`fireWithin_reversed`). Reversing
twice gives back what the net had, with its numbers.
-/

namespace PetriNets

/-- The error of the other direction of firing. -/
def FireError.turned : FireError → FireError
  | notEnabled t p required available => notReverseEnabled t p required available
  | notReverseEnabled t p required available => notEnabled t p required available
  | inSequence position source => inSequence position source.turned
  | e => e

/-- Names that are all different: the one that comes next is not among those before it. -/
theorem notMem_of_nodup_append_map {α β : Type} {f : α → β} {seen : List β} {done rest : List α} {a : α}
    (h : (seen ++ (done ++ a :: rest).map f).Nodup) : f a ∉ seen ++ done.map f := by
  rw [List.map_append, ← List.append_assoc, List.map_cons] at h
  exact fun hmem => (List.nodup_append.1 h).2.2 _ hmem _ List.mem_cons_self rfl

namespace Net

variable {net r : Net} {id : String} {m : Marking}

/-! ## Reversing is not refused -/

theorem exists_foldlM_addNode {α : Type} {add : Net → α → Except GraphError Net}
    (node : α → Node Element) (as : List α)
    (hadd : ∀ r a, add r a = (r.graph.insertNode (node a)).map Net.mk) (h : net.WellFormed)
    (hnodup : (net.graph.nodeIds ++ as.map fun a => (node a).id).Nodup) :
    ∃ r, as.foldlM add net = .ok r ∧ r.WellFormed ∧ r.name = net.name ∧
      r.graph.nodeIds = net.graph.nodeIds ++ as.map (fun a => (node a).id) ∧
      r.graph.keys = net.graph.keys := by
  refine exists_foldlM (fun done (r : Net) => r.WellFormed ∧ r.name = net.name ∧
    r.graph.nodeIds = net.graph.nodeIds ++ done.map (fun a => (node a).id) ∧
      r.graph.keys = net.graph.keys)
    ⟨h, rfl, (List.append_nil _).symm, rfl⟩ ?_
  rintro done a rest r rfl ⟨hr, hname, hids, hkeys⟩
  have hnew : (node a).id ∉ r.graph.nodeIds := by
    rw [hids]
    exact notMem_of_nodup_append_map (f := fun a => (node a).id) hnodup
  have hinsert := Graph.insertNode_eq_ok_iff.2 ⟨hnew, rfl⟩
  obtain ⟨hnodes, hedges⟩ := Graph.lists_insertNode hinsert
  refine ⟨_, by rw [hadd, hinsert]; rfl, hr.insertNode hinsert, hname, ?_,
    (congrArg (List.map Edge.key) hedges).trans hkeys⟩
  refine (congrArg (List.map Node.id) hnodes).trans ?_
  rw [List.map_append, List.map_append, ← List.append_assoc, ← hids]
  rfl

theorem exists_foldlM_insertEdge {g : Graph Element Nat} (fs : List Flow) (h : g.WellFormed)
    (hends : ∀ f ∈ fs, f.key.source ∈ g.nodeIds ∧ f.key.target ∈ g.nodeIds)
    (hnodup : (g.keys ++ fs.map fun f => f.reversed.key).Nodup) :
    ∃ g', fs.foldlM (fun g f => g.insertEdge (Flow.reversed f)) g = .ok g' ∧ g'.WellFormed ∧
      g'.name = g.name ∧ g'.nodeIds = g.nodeIds ∧
      g'.keys = g.keys ++ fs.map fun f => f.reversed.key := by
  refine exists_foldlM (fun done (g' : Graph Element Nat) => g'.WellFormed ∧ g'.name = g.name ∧
    g'.nodeIds = g.nodeIds ∧ g'.keys = g.keys ++ done.map fun f : Flow => f.reversed.key)
    ⟨h, rfl, rfl, (List.append_nil _).symm⟩ ?_
  rintro done f rest g' rfl ⟨hg', hname, hids, hkeys⟩
  have hnew : f.reversed.key ∉ g'.keys := by
    rw [hkeys]
    exact notMem_of_nodup_append_map hnodup
  obtain ⟨hsource, htarget⟩ := hends f (List.mem_append_right _ List.mem_cons_self)
  have hinsert := (Graph.insertEdge_eq_ok_iff hg').2 ⟨hids ▸ htarget, hids ▸ hsource, hnew, rfl⟩
  obtain ⟨hnodes, hedges⟩ := Graph.lists_insertEdge hinsert
  refine ⟨_, hinsert, hg'.insertEdge hinsert, hname,
    (congrArg (List.map Node.id) hnodes).trans hids, ?_⟩
  refine (congrArg (List.map Edge.key) hedges).trans ?_
  rw [List.map_append, List.map_append, ← List.append_assoc, ← hkeys]
  rfl

theorem nodup_ids (h : net.WellFormed) : (net.placeIds ++ net.transitionIds).Nodup := by
  refine (nodup_placeIds h).append (nodup_transitionIds h) ?_
  rw [placeIds_eq, transitionIds_eq]
  exact disjoint_idsOf h.graph.nodup_nodeIds

/-- Flows that are turned around are different, since there is at most one in either direction. -/
theorem nodup_keys_reversed (h : net.WellFormed) :
    (net.flows.map fun f => f.reversed.key).Nodup := by
  have hturned : (net.flows.map fun f => f.reversed.key) =
      net.graph.keys.map fun k => (⟨k.target, k.source, none⟩ : EdgeKey) := by
    unfold Graph.keys
    rw [List.map_map]
    rfl
  rw [hturned]
  refine h.graph.nodup_keys.map_on fun k hk l hl heq => ?_
  -- without labels a key is its two ends, which stand here the other way round
  obtain ⟨source, target, label⟩ := k
  obtain ⟨source', target', label'⟩ := l
  obtain rfl : label = none := h.unlabelled _ hk
  obtain rfl : label' = none := h.unlabelled _ hl
  cases heq
  rfl

theorem WellFormed.exists_reversed (h : net.WellFormed) :
    ∃ r, net.reversed = .ok r ∧ r.name = net.name := by
  have hempty : ((Net.empty net.name).modifyExtensions fun _ => net.extensions.copied).WellFormed :=
    ⟨⟨.nil, .nil, nofun, rfl⟩, nofun⟩
  have haddPlace : ∀ (r : Net) (p : Place), (do return (← r.addPlace p.copied).2) =
      (r.graph.insertNode p.copied.node).map Net.mk := by
    intro r p
    unfold addPlace
    cases r.graph.insertNode _ <;> rfl
  have haddTransition : ∀ (r : Net) (t : Transition), (do return (← r.addTransition t.copied).2) =
      (r.graph.insertNode t.copied.node).map Net.mk := by
    intro r t
    unfold addTransition
    cases r.graph.insertNode _ <;> rfl
  have hids := nodup_ids h
  -- all nodes are there before the first flow comes
  obtain ⟨withPlaces, hplaces, hwell₁, hname₁, (hids₁ : _ = net.placeIds), hkeys₁⟩ :=
    exists_foldlM_addNode _ net.places haddPlace hempty
      (hids.sublist (List.sublist_append_left net.placeIds _))
  obtain ⟨withTransitions, htransitions, hwell₂, hname₂, (hids₂ : _ = _ ++ net.transitionIds), hkeys₂⟩ :=
    exists_foldlM_addNode _ net.transitions haddTransition hwell₁ (hids₁ ▸ hids)
  have hmem : ∀ v ∈ net.graph.nodeIds, v ∈ withTransitions.graph.nodeIds := by
    intro v hv
    rw [hids₂, hids₁, List.mem_append, placeIds_eq, transitionIds_eq]
    exact mem_ids_iff.1 hv
  have hkeys : withTransitions.graph.keys = [] := hkeys₂.trans hkeys₁
  obtain ⟨g, hg, -, hname₃, -, -⟩ := exists_foldlM_insertEdge net.flows hwell₂.graph
    (fun f hf => by
      obtain ⟨hsource, htarget⟩ := h.graph.ends_mem f.key (List.mem_map_of_mem hf)
      exact ⟨hmem _ hsource, hmem _ htarget⟩)
    (by rw [hkeys]; exact nodup_keys_reversed h)
  refine ⟨⟨g⟩, ?_, hname₃.trans (hname₂.trans hname₁)⟩
  unfold reversed
  simp only [bind_eq_ok_iff]
  exact ⟨withPlaces, hplaces, withTransitions, htransitions, g, hg, rfl⟩

/-! ## Arcs and firing -/

section Reversed

variable (h : net.WellFormed) (call : net.reversed = .ok r)
include call

theorem placeCount_reversed : r.placeCount = net.placeCount := by
  unfold placeCount
  rw [places_reversed call, List.length_map]

theorem transitionCount_reversed : r.transitionCount = net.transitionCount := by
  unfold transitionCount
  rw [transitions_reversed call, List.length_map]

theorem placeIndex?_reversed (v : String) : r.placeIndex? v = net.placeIndex? v := by
  unfold placeIndex?
  rw [(ids_reversed call).1]

theorem transitionIndex?_reversed (v : String) : r.transitionIndex? v = net.transitionIndex? v := by
  unfold transitionIndex?
  rw [(ids_reversed call).2]

theorem placeName_reversed (p : PlaceId) : r.placeName p = net.placeName p := by
  unfold placeName
  rw [(ids_reversed call).1]

theorem transitionName_reversed (t : TransitionId) : r.transitionName t = net.transitionName t := by
  unfold transitionName
  rw [(ids_reversed call).2]

include h

/-- The rows of a transition change places, each with its arcs in their order. -/
theorem arcsNamed_reversed (id : String) : r.arcsNamed id = (net.arcsNamed id).reverse := by
  have hr := wellFormed_of_reversed call
  have hflows := (lists_reversed call).2
  have hpre : (r.arcsNamed id).pre = (net.arcsNamed id).post := by
    rw [hr.pre_arcsNamed, h.post_arcsNamed, hflows, List.filter_map]
    unfold row
    rw [List.filterMap_map]
    simp only [placeIndex?_reversed call]
    rfl
  have hpost : (r.arcsNamed id).post = (net.arcsNamed id).pre := by
    rw [hr.post_arcsNamed, h.pre_arcsNamed, hflows, List.filter_map]
    unfold row
    rw [List.filterMap_map]
    simp only [placeIndex?_reversed call]
    rfl
  exact congrArg₂ Arcs.mk hpre hpost

/-- Firing in the reversed net is firing backwards, with the error of this direction. -/
theorem fireWithin_reversed (cap : Capacity) (m : Marking) (t : TransitionRef) :
    r.fireWithin cap m t = (net.reverseFireWithin cap m t).mapError FireError.turned := by
  have hcheck : r.checkMarking m = (net.checkMarking m).mapError FireError.turned := by
    unfold checkMarking
    rw [placeCount_reversed call]
    split <;> rfl
  have hresolve : r.resolve t = (net.resolve t).mapError FireError.turned := by
    cases t with
    | number t =>
      unfold resolve
      dsimp only
      rw [transitionCount_reversed call]
      split <;> rfl
    | name v =>
      unfold resolve
      dsimp only
      rw [transitionIndex?_reversed call]
      cases net.transitionIndex? v <;> rfl
  have hfault : ∀ u fault, r.faultError u fault = (net.reverseFaultError u fault).turned := by
    intro u fault
    cases fault <;>
      simp only [faultError, reverseFaultError, FireError.turned, placeName_reversed call,
        transitionName_reversed call]
  unfold fireWithin reverseFireWithin
  rw [mapError_bind, hcheck]
  refine bind_congr fun _ => ?_
  rw [mapError_bind, hresolve]
  refine bind_congr fun u => ?_
  rw [mapError_mapError, transitionName_reversed call, arcsNamed_reversed h call,
    show r.faultError u = FireError.turned ∘ net.reverseFaultError u from funext (hfault u)]
  rfl

end Reversed

/-- What firing forwards is starved by is told as this direction. -/
theorem fireWithin_ne_notReverseEnabled (cap : Capacity) (m : Marking) (t : TransitionRef)
    (u p : String) (required : Nat) (available : Token) :
    net.fireWithin cap m t ≠ .error (.notReverseEnabled u p required available) := by
  intro h
  unfold fireWithin at h
  rcases bind_eq_error_iff.1 h with hcheck | ⟨_, -, hrest⟩
  · unfold checkMarking at hcheck
    split at hcheck <;> cases hcheck
  rcases bind_eq_error_iff.1 hrest with hresolve | ⟨_, -, hfires⟩
  · unfold resolve at hresolve
    split at hresolve <;> split at hresolve <;> cases hresolve
  obtain ⟨fault, -, hfault⟩ := mapError_eq_error_iff.1 hfires
  cases fault <;> cases hfault

/-! ## Reversing twice -/

/-- Turning a flow around twice changes no more than copying does. -/
theorem key_data_reversed_reversed (h : net.WellFormed) {f : Flow} (hf : f ∈ net.flows) :
    (f.reversed.reversed.key, f.reversed.reversed.data) = (f.key, f.data) := by
  have hlabel := h.unlabelled f.key (List.mem_map_of_mem hf)
  obtain ⟨⟨source, target, label⟩, data, extensions⟩ := f
  obtain rfl : label = none := hlabel
  rfl

/-- The incidence of a net tells its arcs by number, so the net reversed twice has the same. -/
theorem incidence_reversed_reversed (h : net.WellFormed) {r' : Net} (call : net.reversed = .ok r)
    (call' : r.reversed = .ok r') : r'.incidence = net.incidence := by
  have hr := wellFormed_of_reversed call
  have harcs : r'.arcsNamed = net.arcsNamed := funext fun id => by
    rw [arcsNamed_reversed hr call', arcsNamed_reversed h call, Arcs.reverse_reverse]
  unfold incidence
  rw [placeCount_reversed call', placeCount_reversed call, (ids_reversed call').2,
    (ids_reversed call).2, harcs]

/-- Reversing a net gives its backward semantics. It is never refused; firing in the reversed net gives
what firing backwards in the net gives, down to the place that is blamed and the counts that are told,
only that the one tells of a transition that is not enabled where the other tells of one that is not
enabled backwards; and reversing once more gives a net of the same name with the same places and tokens,
transitions and labels, flows and weights, each in their order, and so with the same numbers and the same
arcs. -/
theorem reversed_exact (h : net.Built) : ∃ r, net.reversed = .ok r ∧ r.Legal ∧
    (∀ m t, r.fire m t = (net.reverseFire m t).mapError FireError.turned) ∧
    (∀ m t u p required available,
      r.fire m t ≠ .error (.notReverseEnabled u p required available)) ∧
    ∃ r', r.reversed = .ok r' ∧ r'.name = net.name ∧
      r'.places.map (fun p => (p.id, p.tokens)) = net.places.map (fun p => (p.id, p.tokens)) ∧
      r'.transitions.map (fun t => (t.id, t.label)) =
        net.transitions.map (fun t => (t.id, t.label)) ∧
      r'.flows.map (fun f => (f.key, f.data)) = net.flows.map (fun f => (f.key, f.data)) ∧
      (∀ v, r'.placeIndex? v = net.placeIndex? v ∧ r'.transitionIndex? v = net.transitionIndex? v) ∧
      r'.incidence = net.incidence := by
  have hwell := h.wellFormed
  obtain ⟨r, call, hname⟩ := hwell.exists_reversed
  have hr : r.Built := h.reversed call
  obtain ⟨r', call', hname'⟩ := hr.wellFormed.exists_reversed
  refine ⟨r, call, hr.legal, fun m t => fireWithin_reversed hwell call .word m t,
    fireWithin_ne_notReverseEnabled .word, r', call', hname'.trans hname, ?_, ?_, ?_,
    fun v => ⟨?_, ?_⟩, incidence_reversed_reversed hwell call call'⟩
  · rw [places_reversed call', places_reversed call, List.map_map, List.map_map]
    rfl
  · rw [transitions_reversed call', transitions_reversed call, List.map_map, List.map_map]
    rfl
  · rw [(lists_reversed call').2, (lists_reversed call).2, List.map_map, List.map_map]
    exact List.map_congr_left fun f hf => key_data_reversed_reversed hwell hf
  · rw [placeIndex?_reversed call', placeIndex?_reversed call]
  · rw [transitionIndex?_reversed call', transitionIndex?_reversed call]

/-- A mill that takes grain and water and gives flour; the flow of the water was laid anew, and so comes
after that of the grain. -/
def millNet : Net := .ofScript "mill" [.addPlace ⟨"water", 2, ∅⟩, .addPlace ⟨"grain", 1, ∅⟩,
  .createPlace "flour", .createTransition "grind", .createFlow "water" "grind" 1,
  .createFlow "grain" "grind" 1, .createFlow "grind" "flour" 3, .removeFlow "water" "grind",
  .createFlow "water" "grind" 2]

theorem reversed_exact_millNet : ∃ r r', Net.reversed millNet = .ok r ∧ Net.reversed r = .ok r' ∧
    r'.incidence = millNet.incidence ∧
    r.fire (.ofCounts [0, 0, 3]) (.name "grind") = .ok (.ofCounts [2, 1, 0]) ∧
    r.fire (.ofCounts [0, 0, 2]) (.name "grind") =
      .error (.notEnabled "grind" "flour" 3 (.finite 2)) := by
  have h : millNet.Built := built_ofScript _ _
  obtain ⟨r, call, -, hfire, -, r', call', -, -, -, -, -, hincidence⟩ := reversed_exact h
  refine ⟨r, r', call, call', hincidence, ?_, ?_⟩
  · rw [hfire]
    decide
  · rw [hfire]
    decide

end Net

end PetriNets
