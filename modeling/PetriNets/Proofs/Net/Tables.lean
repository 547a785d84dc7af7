import PetriNets.Proofs.Net.Built

/-!
# The names of places and transitions

The places of a net and its transitions are the nodes of either kind, in the order of the graph. What
an operation does to the nodes it does to the names of both kinds (`idsOf`), so every call has one
equation for each of the two lists. Flows are `Legal` if they join a place and a transition and move a
token; nets that have been built have no others (`Built.legal`).
-/

namespace PetriNets

variable {n : Node Element} {ns : List (Node Element)} {v : String} {kind : Bool}

theorem Node.asPlace?_eq_some_iff {p : Place} : n.asPlace? = some p ↔ p.node = n := by
  obtain ⟨id, data, ext⟩ := n
  obtain ⟨id', tokens, ext'⟩ := p
  cases data <;> simp [asPlace?, Place.node, eq_comm]

theorem Node.asTransition?_eq_some_iff {t : Transition} :
    n.asTransition? = some t ↔ t.node = n := by
  obtain ⟨id, data, ext⟩ := n
  obtain ⟨id', label, ext'⟩ := t
  cases data <;> simp [asTransition?, Transition.node, eq_comm]

/-- The names of the places among some nodes, or those of the others. -/
def idsOf (kind : Bool) (ns : List (Node Element)) : List String :=
  (ns.filter fun n => n.data.isPlace = kind).map Node.id

theorem mem_idsOf : v ∈ idsOf kind ns ↔ ∃ n ∈ ns, n.id = v ∧ n.data.isPlace = kind := by
  unfold idsOf
  simp only [List.mem_map, List.mem_filter, decide_eq_true_eq]
  constructor
  · rintro ⟨n, ⟨hn, hkind⟩, hid⟩
    exact ⟨n, hn, hid, hkind⟩
  · rintro ⟨n, hn, hid, hkind⟩
    exact ⟨n, ⟨hn, hkind⟩, hid⟩

theorem idsOf_append (ms ns : List (Node Element)) :
    idsOf kind (ms ++ ns) = idsOf kind ms ++ idsOf kind ns := by
  unfold idsOf
  rw [List.filter_append, List.map_append]

theorem idsOf_filter_ne (v : String) (ns : List (Node Element)) :
    idsOf kind (ns.filter fun n => n.id ≠ v) = (idsOf kind ns).filter (· ≠ v) := by
  unfold idsOf
  rw [List.filter_map, List.filter_filter, List.filter_filter]
  simp only [Function.comp_apply, Bool.and_comm]

/-- Changing nodes, but neither their names nor their kinds. -/
theorem idsOf_map {f : Node Element → Node Element}
    (hf : ∀ n ∈ ns, (f n).id = n.id ∧ (f n).data.isPlace = n.data.isPlace) :
    idsOf kind (ns.map f) = idsOf kind ns := by
  induction ns with
  | nil => rfl
  | cons n ns ih =>
    obtain ⟨hn, hrest⟩ := List.forall_mem_cons.1 hf
    have htail := ih hrest
    unfold idsOf at htail ⊢
    rw [List.map_cons, List.filter_cons, List.filter_cons, hn.2]
    split
    · rw [List.map_cons, List.map_cons, hn.1, htail]
    · exact htail

/-- Names that are unique are unique among the nodes of one kind. -/
theorem nodup_idsOf (h : (ns.map Node.id).Nodup) : (idsOf kind ns).Nodup :=
  h.sublist (List.filter_sublist.map _)

theorem disjoint_idsOf (h : (ns.map Node.id).Nodup) :
    (idsOf true ns).Disjoint (idsOf false ns) := by
  intro v hplace htransition
  obtain ⟨n, hn, rfl, hkind⟩ := mem_idsOf.1 hplace
  obtain ⟨m, hm, hid, hkind'⟩ := mem_idsOf.1 htransition
  rw [List.inj_on_of_nodup_map h hm hn hid, hkind] at hkind'
  cases hkind'

/-- Where names are unique, the kind of a name is that of its node. -/
theorem isPlace_of_mem_idsOf (h : (ns.map Node.id).Nodup) (hv : v ∈ idsOf kind ns) :
    ∀ n ∈ ns, n.id = v → n.data.isPlace = kind := by
  rintro n hn rfl
  obtain ⟨m, hm, hid, hkind⟩ := mem_idsOf.1 hv
  rwa [← List.inj_on_of_nodup_map h hm hn hid]

/-- Leaving out the name of a node leaves the names of the other kind as they are. -/
theorem filter_ne_idsOf {n : Node Element} (h : (ns.map Node.id).Nodup) (hn : n ∈ ns)
    (hkind : n.data.isPlace ≠ kind) : (idsOf kind ns).filter (· ≠ n.id) = idsOf kind ns := by
  refine List.filter_eq_self.2 fun v hv => decide_eq_true fun heq => hkind ?_
  exact isPlace_of_mem_idsOf h hv n hn heq.symm

theorem mem_ids_iff : v ∈ ns.map Node.id ↔ v ∈ idsOf true ns ∨ v ∈ idsOf false ns := by
  simp only [mem_idsOf, List.mem_map]
  constructor
  · rintro ⟨n, hn, rfl⟩
    cases hkind : n.data.isPlace
    · exact .inr ⟨n, hn, rfl, hkind⟩
    · exact .inl ⟨n, hn, rfl, hkind⟩
  · rintro (⟨n, hn, hid, -⟩ | ⟨n, hn, hid, -⟩) <;> exact ⟨n, hn, hid⟩

/-- In a table without repetitions a name is where it is looked up. -/
theorem idxOf?_eq_some_iff_of_nodup {names : List String} {v : String} {i : Nat}
    (h : names.Nodup) : names.idxOf? v = some i ↔ names[i]? = some v := by
  rw [List.idxOf?_eq_some_iff, List.getElem?_eq_some_iff]
  constructor
  · rintro ⟨hi, hv, -⟩
    exact ⟨hi, hv⟩
  · rintro ⟨hi, rfl⟩
    refine ⟨hi, rfl, fun j hj hsame => ?_⟩
    have hij : j = i := h.getElem_inj_iff.1 hsame
    omega

namespace Net

variable {net net' : Net} {id : String} {m : Marking}

theorem placeIds_eq (net : Net) : net.placeIds = idsOf true net.graph.nodes := by
  unfold placeIds places idsOf
  generalize net.graph.nodes = ns
  induction ns with
  | nil => rfl
  | cons n ns ih => cases hdata : n.data <;> simp_all [Node.asPlace?, Element.isPlace]

theorem transitionIds_eq (net : Net) : net.transitionIds = idsOf false net.graph.nodes := by
  unfold transitionIds transitions idsOf
  generalize net.graph.nodes = ns
  induction ns with
  | nil => rfl
  | cons n ns ih => cases hdata : n.data <;> simp_all [Node.asTransition?, Element.isPlace]

theorem length_placeIds : net.placeIds.length = net.placeCount := List.length_map _

theorem length_transitionIds : net.transitionIds.length = net.transitionCount := List.length_map _

theorem nodup_placeIds (h : net.WellFormed) : net.placeIds.Nodup := by
  rw [placeIds_eq]
  exact nodup_idsOf h.graph.nodup_nodeIds

theorem nodup_transitionIds (h : net.WellFormed) : net.transitionIds.Nodup := by
  rw [transitionIds_eq]
  exact nodup_idsOf h.graph.nodup_nodeIds

theorem placeIndex?_eq_some_iff (h : net.WellFormed) {p : PlaceId} :
    net.placeIndex? id = some p ↔ net.placeIds[p.index]? = some id := by
  refine ⟨placeIds_getElem?_of_placeIndex?, fun hp => ?_⟩
  unfold placeIndex?
  rw [(idxOf?_eq_some_iff_of_nodup (nodup_placeIds h)).2 hp]
  rfl

theorem transitionIds_getElem?_of_transitionIndex? {t : TransitionId}
    (ht : net.transitionIndex? id = some t) : net.transitionIds[t.index]? = some id := by
  obtain ⟨i, hi, rfl⟩ := Option.map_eq_some_iff.1 ht
  obtain ⟨hlt, hname, -⟩ := List.idxOf?_eq_some_iff.1 hi
  rw [List.getElem?_eq_getElem hlt, hname]

theorem transitionIndex?_transitionName (h : net.WellFormed) {t : TransitionId}
    (ht : t.index < net.transitionCount) : net.transitionIndex? (net.transitionName t) = some t := by
  have hname : net.transitionIds[t.index]? = some (net.transitionName t) := by
    unfold transitionName
    rw [List.getElem?_eq_getElem (length_transitionIds ▸ ht), Option.getD_some]
  unfold transitionIndex?
  rw [(idxOf?_eq_some_iff_of_nodup (nodup_transitionIds h)).2 hname]
  rfl

theorem exists_placeIndex? (h : net.WellFormed) (hid : id ∈ net.placeIds) :
    ∃ p, net.placeIndex? id = some p := by
  obtain ⟨i, hi⟩ := List.mem_iff_getElem?.1 hid
  exact ⟨⟨i⟩, (placeIndex?_eq_some_iff h).2 hi⟩

theorem map_placeName_upTo (net : Net) :
    (Id.upTo net.placeCount).map net.placeName = net.placeIds := by
  rw [← length_placeIds]
  exact Id.map_getD_upTo _ _

theorem map_transitionName_upTo (net : Net) :
    (Id.upTo net.transitionCount).map net.transitionName = net.transitionIds := by
  rw [← length_transitionIds]
  exact Id.map_getD_upTo _ _

theorem isPlace_of_mem_placeIds (h : net.WellFormed) (hid : id ∈ net.placeIds) :
    ∀ n ∈ net.graph.nodes, n.id = id → n.data.isPlace = true := by
  rw [placeIds_eq] at hid
  exact isPlace_of_mem_idsOf h.graph.nodup_nodeIds hid

theorem isPlace_of_mem_transitionIds (h : net.WellFormed) (hid : id ∈ net.transitionIds) :
    ∀ n ∈ net.graph.nodes, n.id = id → n.data.isPlace = false := by
  rw [transitionIds_eq] at hid
  exact isPlace_of_mem_idsOf h.graph.nodup_nodeIds hid

/-- No name is one of a place and one of a transition. -/
theorem notMem_placeIds (h : net.WellFormed) (hid : id ∈ net.transitionIds) : id ∉ net.placeIds := by
  rw [transitionIds_eq] at hid
  rw [placeIds_eq]
  exact fun hplace => disjoint_idsOf h.graph.nodup_nodeIds hplace hid

/-- Where the nodes are those of another net, with the same names and kinds, the names of places and
transitions are. -/
theorem ids_of_nodes_map {f : Node Element → Node Element}
    (hnodes : net'.graph.nodes = net.graph.nodes.map f)
    (hf : ∀ n ∈ net.graph.nodes, (f n).id = n.id ∧ (f n).data.isPlace = n.data.isPlace) :
    net'.placeIds = net.placeIds ∧ net'.transitionIds = net.transitionIds := by
  simp only [placeIds_eq, transitionIds_eq, hnodes]
  exact ⟨idsOf_map hf, idsOf_map hf⟩

theorem ids_of_nodes_eq (hnodes : net'.graph.nodes = net.graph.nodes) :
    net'.placeIds = net.placeIds ∧ net'.transitionIds = net.transitionIds := by
  simp only [placeIds_eq, transitionIds_eq, hnodes, and_self]

/-! ## What calls do to nodes and flows -/

theorem lists_addPlace {p : Place} {i : PlaceId} (call : net.addPlace p = .ok (i, net')) :
    i = ⟨net.placeCount⟩ ∧ net'.graph.nodes = net.graph.nodes ++ [p.node] ∧
      net'.flows = net.flows := by
  obtain ⟨g, hg, hnet⟩ := bind_eq_ok_iff.1 call
  obtain ⟨hi, rfl⟩ := Prod.mk.inj (Except.ok.inj hnet)
  exact ⟨hi.symm, Graph.lists_insertNode hg⟩

theorem lists_addTransition {t : Transition} {i : TransitionId}
    (call : net.addTransition t = .ok (i, net')) : i = ⟨net.transitionCount⟩ ∧
      net'.graph.nodes = net.graph.nodes ++ [t.node] ∧ net'.flows = net.flows := by
  obtain ⟨g, hg, hnet⟩ := bind_eq_ok_iff.1 call
  obtain ⟨hi, rfl⟩ := Prod.mk.inj (Except.ok.inj hnet)
  exact ⟨hi.symm, Graph.lists_insertNode hg⟩

theorem ids_addPlace {p : Place} {i : PlaceId} (call : net.addPlace p = .ok (i, net')) :
    net'.placeIds = net.placeIds ++ [p.id] ∧ net'.transitionIds = net.transitionIds := by
  obtain ⟨-, hnodes, -⟩ := lists_addPlace call
  simp only [placeIds_eq, transitionIds_eq, hnodes, idsOf_append]
  exact ⟨rfl, List.append_nil _⟩

theorem ids_addTransition {t : Transition} {i : TransitionId}
    (call : net.addTransition t = .ok (i, net')) :
    net'.placeIds = net.placeIds ∧ net'.transitionIds = net.transitionIds ++ [t.id] := by
  obtain ⟨-, hnodes, -⟩ := lists_addTransition call
  simp only [placeIds_eq, transitionIds_eq, hnodes, idsOf_append]
  exact ⟨List.append_nil _, rfl⟩

/-- The flow runs between a place and a transition. -/
def Joins (net : Net) (source target : String) : Prop :=
  source ∈ net.placeIds ∧ target ∈ net.transitionIds ∨
    source ∈ net.transitionIds ∧ target ∈ net.placeIds

theorem joins_of_isPlace_ne {s t : Node Element} (hs : s ∈ net.graph.nodes)
    (ht : t ∈ net.graph.nodes) (hne : s.data.isPlace ≠ t.data.isPlace) : net.Joins s.id t.id := by
  unfold Joins
  simp only [placeIds_eq, transitionIds_eq, mem_idsOf]
  cases hkind : s.data.isPlace
  · rw [hkind] at hne
    exact .inr ⟨⟨s, hs, rfl, hkind⟩, t, ht, rfl, Bool.eq_true_of_not_eq_false hne.symm⟩
  · rw [hkind] at hne
    exact .inl ⟨⟨s, hs, rfl, hkind⟩, t, ht, rfl, Bool.eq_false_of_not_eq_true hne.symm⟩

theorem lists_addFlow (h : net.WellFormed) {f : Flow} (call : net.addFlow f = .ok net') :
    f.data ≠ 0 ∧ net.Joins f.key.source f.key.target ∧ net'.graph.nodes = net.graph.nodes ∧
      net'.flows = net.flows ++ [f] := by
  unfold addFlow at call
  dsimp only at call
  split at call
  · cases call
  · next hweight =>
    obtain ⟨s, hs, call⟩ := bind_eq_ok_iff.1 call
    obtain ⟨t, ht, call⟩ := bind_eq_ok_iff.1 call
    split at call
    · cases call
    · next hkinds =>
      obtain ⟨g, hg, hnet⟩ := bind_eq_ok_iff.1 call
      obtain rfl := Except.ok.inj hnet
      obtain ⟨hs, hsource⟩ := h.graph.node_eq_ok_iff.1 hs
      obtain ⟨ht, htarget⟩ := h.graph.node_eq_ok_iff.1 ht
      refine ⟨hweight, ?_, Graph.lists_insertEdge hg⟩
      rw [← hsource, ← htarget]
      exact joins_of_isPlace_ne hs ht hkinds

theorem lists_removeFlow (h : net.WellFormed) {source target : String} {f : Flow}
    (call : net.removeFlow source target = .ok (f, net')) :
    net'.graph.nodes = net.graph.nodes ∧
      net'.flows = net.flows.filter fun e => e.key ≠ ⟨source, target, none⟩ := by
  obtain ⟨⟨f, g⟩, hg, hnet⟩ := bind_eq_ok_iff.1 call
  obtain ⟨-, rfl⟩ := Prod.mk.inj (Except.ok.inj hnet)
  exact h.graph.lists_removeEdge hg

theorem lists_removeNode (h : net.WellFormed) {n : Node Element}
    (call : net.removeNode id = .ok (n, net')) : (n ∈ net.graph.nodes ∧ n.id = id) ∧
      net'.graph.nodes = net.graph.nodes.filter (fun m => m.id ≠ id) ∧
      net'.flows = net.flows.filter fun e => !e.key.touches id := by
  obtain ⟨⟨n, g⟩, hg, hnet⟩ := bind_eq_ok_iff.1 call
  obtain ⟨rfl, rfl⟩ := Prod.mk.inj (Except.ok.inj hnet)
  exact h.graph.lists_removeNode hg

theorem ids_removeNode (h : net.WellFormed) {n : Node Element}
    (call : net.removeNode id = .ok (n, net')) :
    net'.placeIds = net.placeIds.filter (· ≠ id) ∧
      net'.transitionIds = net.transitionIds.filter (· ≠ id) := by
  obtain ⟨-, hnodes, -⟩ := lists_removeNode h call
  simp only [placeIds_eq, transitionIds_eq, hnodes, idsOf_filter_ne, and_self]

/-- Changing what a node is, but not its kind. -/
theorem ids_modifyData {d : Element}
    (hkind : ∀ n ∈ net.graph.nodes, n.id = id → n.data.isPlace = d.isPlace) :
    (Net.mk (net.graph.modifyData id fun _ => d)).placeIds = net.placeIds ∧
      (Net.mk (net.graph.modifyData id fun _ => d)).transitionIds = net.transitionIds := by
  refine ids_of_nodes_map (Graph.nodes_modifyData id _) fun n hn => ?_
  split
  · next hid => exact ⟨rfl, (hkind n hn hid).symm⟩
  · exact ⟨rfl, rfl⟩

theorem ids_modifyNodeExtensions (id : String) (f : Extensions → Extensions) :
    (Net.mk (net.graph.modifyNodeExtensions id f)).placeIds = net.placeIds ∧
      (Net.mk (net.graph.modifyNodeExtensions id f)).transitionIds = net.transitionIds := by
  refine ids_of_nodes_map (f := fun n =>
    if n.id = id then { n with extensions := f n.extensions } else n) ?_ fun n _ => ?_
  · unfold Graph.modifyNodeExtensions Graph.modifySlot Graph.nodes
    rw [List.map_map, List.map_map]
    refine List.map_congr_left fun s _ => ?_
    simp only [Function.comp_apply]
    split <;> rfl
  · split <;> exact ⟨rfl, rfl⟩

theorem ids_copied (net : Net) :
    net.copied.placeIds = net.placeIds ∧ net.copied.transitionIds = net.transitionIds := by
  refine ids_of_nodes_map (f := Node.copied) ?_ fun n _ => ⟨rfl, rfl⟩
  show (net.graph.slots.map _).map Slot.node = (net.graph.slots.map Slot.node).map Node.copied
  rw [List.map_map, List.map_map]
  rfl

theorem place_eq_ok_iff (h : net.WellFormed) {p : Place} :
    net.place id = .ok p ↔ p.node ∈ net.graph.nodes ∧ p.id = id := by
  unfold place
  rw [bind_eq_ok_iff]
  simp only [h.graph.node_eq_ok_iff]
  constructor
  · rintro ⟨⟨v, d, ext⟩, ⟨hn, hid⟩, hp⟩
    cases d with
    | place tokens =>
      obtain rfl := Except.ok.inj hp
      exact ⟨hn, hid⟩
    | transition label => cases hp
  · rintro ⟨hn, hid⟩
    exact ⟨p.node, ⟨hn, hid⟩, rfl⟩

theorem transition_eq_ok_iff (h : net.WellFormed) {t : Transition} :
    net.transition id = .ok t ↔ t.node ∈ net.graph.nodes ∧ t.id = id := by
  unfold transition
  rw [bind_eq_ok_iff]
  simp only [h.graph.node_eq_ok_iff]
  constructor
  · rintro ⟨⟨v, d, ext⟩, ⟨hn, hid⟩, ht⟩
    cases d with
    | place tokens => cases ht
    | transition label =>
      obtain rfl := Except.ok.inj ht
      exact ⟨hn, hid⟩
  · rintro ⟨hn, hid⟩
    exact ⟨t.node, ⟨hn, hid⟩, rfl⟩

theorem mem_placeIds_of_place (h : net.WellFormed) {p : Place} (hp : net.place id = .ok p) :
    id ∈ net.placeIds := by
  obtain ⟨hn, rfl⟩ := (place_eq_ok_iff h).1 hp
  rw [placeIds_eq, mem_idsOf]
  exact ⟨p.node, hn, rfl, rfl⟩

theorem mem_transitionIds_of_transition (h : net.WellFormed) {t : Transition}
    (ht : net.transition id = .ok t) : id ∈ net.transitionIds := by
  obtain ⟨hn, rfl⟩ := (transition_eq_ok_iff h).1 ht
  rw [transitionIds_eq, mem_idsOf]
  exact ⟨t.node, hn, rfl, rfl⟩

theorem ids_setTokens (h : net.WellFormed) {tokens : Nat} (call : net.setTokens id tokens = .ok net') :
    net'.placeIds = net.placeIds ∧ net'.transitionIds = net.transitionIds := by
  obtain ⟨p, hp, hnet⟩ := bind_eq_ok_iff.1 call
  obtain rfl := Except.ok.inj hnet
  exact ids_modifyData (isPlace_of_mem_placeIds h (mem_placeIds_of_place h hp))

theorem ids_setLabel (h : net.WellFormed) {label : String} (call : net.setLabel id label = .ok net') :
    net'.placeIds = net.placeIds ∧ net'.transitionIds = net.transitionIds := by
  obtain ⟨t, ht, hnet⟩ := bind_eq_ok_iff.1 call
  obtain rfl := Except.ok.inj hnet
  exact ids_modifyData (isPlace_of_mem_transitionIds h (mem_transitionIds_of_transition h ht))

/-- Changing the tokens of places one after the other changes no names and no flows. -/
theorem foldl_modifyData (h : net.WellFormed) (counts : List (String × Nat))
    (hcounts : ∀ e ∈ counts, e.1 ∈ net.placeIds)
    (hnet : counts.foldl (fun net e => ⟨net.graph.modifyData e.1 fun _ => .place e.2⟩) net = net') :
    net'.WellFormed ∧ (net'.placeIds = net.placeIds ∧ net'.transitionIds = net.transitionIds) ∧
      net'.flows = net.flows := by
  induction counts generalizing net with
  | nil =>
    obtain rfl : net = net' := hnet
    exact ⟨h, ⟨rfl, rfl⟩, rfl⟩
  | cons e counts ih =>
    obtain ⟨he, hrest⟩ := List.forall_mem_cons.1 hcounts
    have hids := ids_modifyData (d := .place e.2) (isPlace_of_mem_placeIds h he)
    have hwell := h.modifyData e.1 fun _ => .place e.2
    obtain ⟨hwell', hids', hflows'⟩ := ih hwell (by rw [hids.1]; exact hrest) hnet
    exact ⟨hwell', ⟨hids'.1.trans hids.1, hids'.2.trans hids.2⟩, hflows'⟩

theorem ids_setInitialMarking (h : net.WellFormed) (call : net.setInitialMarking m = .ok net') :
    (net'.placeIds = net.placeIds ∧ net'.transitionIds = net.transitionIds) ∧
      net'.flows = net.flows := by
  unfold setInitialMarking at call
  simp only [bind_eq_ok_iff] at call
  obtain ⟨_, -, counts, hcounts, hnet⟩ := call
  refine (foldl_modifyData h counts (fun e he => ?_) (Except.ok.inj hnet)).2
  obtain ⟨⟨v, t⟩, hv, hcount⟩ := exists_of_mem_mapM hcounts he
  dsimp only at hcount
  split at hcount
  · obtain rfl := Except.ok.inj hcount
    exact (List.of_mem_zip hv).1
  · cases hcount

/-! ## The reversed net -/

/-- Calls that add a node each, one after the other. -/
theorem foldlM_addNode {α : Type} {add : Net → α → Except GraphError Net} {node : α → Node Element}
    (hadd : ∀ a r r', add r a = .ok r' →
      r'.graph.nodes = r.graph.nodes ++ [node a] ∧ r'.flows = r.flows)
    {as : List α} (call : as.foldlM add net = .ok net') :
    net'.graph.nodes = net.graph.nodes ++ as.map node ∧ net'.flows = net.flows := by
  refine foldlM_induction (fun done r => r.graph.nodes = net.graph.nodes ++ done.map node ∧
    r.flows = net.flows) ⟨(List.append_nil _).symm, rfl⟩ ?_ call
  rintro done a r r' - ⟨hnodes, hflows⟩ hcall
  obtain ⟨hnodes', hflows'⟩ := hadd a r r' hcall
  refine ⟨?_, hflows'.trans hflows⟩
  rw [hnodes', hnodes, List.map_append, List.append_assoc]
  rfl

theorem foldlM_insertEdge {fs : List Flow} {g g' : Graph Element Nat}
    (call : fs.foldlM (fun g f => g.insertEdge (Flow.reversed f)) g = .ok g') :
    g'.nodes = g.nodes ∧ g'.edges = g.edges ++ fs.map Flow.reversed := by
  refine foldlM_induction (fun done r => r.nodes = g.nodes ∧
    r.edges = g.edges ++ done.map Flow.reversed) ⟨rfl, (List.append_nil _).symm⟩ ?_ call
  rintro done f r r' - ⟨hnodes, hedges⟩ hcall
  obtain ⟨hnodes', hedges'⟩ := Graph.lists_insertEdge hcall
  refine ⟨hnodes'.trans hnodes, ?_⟩
  rw [hedges', hedges, List.map_append, List.append_assoc]
  rfl

/-- The reversed net has the places, then the transitions, and the flows turned around. -/
theorem lists_reversed (call : net.reversed = .ok net') :
    net'.graph.nodes = net.places.map (fun p => p.copied.node) ++
        net.transitions.map (fun t => t.copied.node) ∧
      net'.flows = net.flows.map Flow.reversed := by
  unfold reversed at call
  simp only [bind_eq_ok_iff] at call
  obtain ⟨withPlaces, hplaces, withTransitions, htransitions, graph, hflows, hnet⟩ := call
  obtain rfl := Except.ok.inj hnet
  have hplace : ∀ (p : Place) (r r' : Net), (do return (← r.addPlace p.copied).2) = Except.ok r' →
      r'.graph.nodes = r.graph.nodes ++ [p.copied.node] ∧ r'.flows = r.flows := by
    intro p r r' hcall
    obtain ⟨⟨i, r''⟩, hr, hnext⟩ := bind_eq_ok_iff.1 hcall
    obtain rfl := Except.ok.inj hnext
    exact (lists_addPlace hr).2
  have htransition : ∀ (t : Transition) (r r' : Net),
      (do return (← r.addTransition t.copied).2) = Except.ok r' →
        r'.graph.nodes = r.graph.nodes ++ [t.copied.node] ∧ r'.flows = r.flows := by
    intro t r r' hcall
    obtain ⟨⟨i, r''⟩, hr, hnext⟩ := bind_eq_ok_iff.1 hcall
    obtain rfl := Except.ok.inj hnext
    exact (lists_addTransition hr).2
  obtain ⟨hnodes₁, hflows₁⟩ := foldlM_addNode hplace hplaces
  obtain ⟨hnodes₂, hflows₂⟩ := foldlM_addNode htransition htransitions
  obtain ⟨hnodes₃, hflows₃⟩ := foldlM_insertEdge hflows
  constructor
  · rw [hnodes₃, hnodes₂, hnodes₁]
    rfl
  · show graph.edges = _
    rw [hflows₃]
    show withTransitions.flows ++ _ = _
    rw [hflows₂, hflows₁]
    rfl

theorem places_reversed (call : net.reversed = .ok net') :
    net'.places = net.places.map Place.copied := by
  have hnone : net.transitions.filterMap (Node.asPlace? ∘ fun t => t.copied.node) = [] :=
    List.filterMap_eq_nil_iff.2 fun _ _ => rfl
  show net'.graph.nodes.filterMap Node.asPlace? = _
  rw [(lists_reversed call).1, List.filterMap_append, List.filterMap_map, List.filterMap_map, hnone,
    List.append_nil, ← List.filterMap_eq_map]
  rfl

theorem transitions_reversed (call : net.reversed = .ok net') :
    net'.transitions = net.transitions.map Transition.copied := by
  have hnone : net.places.filterMap (Node.asTransition? ∘ fun p => p.copied.node) = [] :=
    List.filterMap_eq_nil_iff.2 fun _ _ => rfl
  show net'.graph.nodes.filterMap Node.asTransition? = _
  rw [(lists_reversed call).1, List.filterMap_append, List.filterMap_map, List.filterMap_map, hnone,
    List.nil_append, ← List.filterMap_eq_map]
  rfl

theorem ids_reversed (call : net.reversed = .ok net') :
    net'.placeIds = net.placeIds ∧ net'.transitionIds = net.transitionIds := by
  unfold placeIds transitionIds
  rw [places_reversed call, transitions_reversed call, List.map_map, List.map_map]
  exact ⟨rfl, rfl⟩

/-! ## Legal flows -/

/-- Every flow joins a place and a transition, in either direction, and moves a token. -/
def Legal (net : Net) : Prop :=
  ∀ f ∈ net.flows, 1 ≤ f.data ∧ net.Joins f.key.source f.key.target

theorem Joins.mono {source target : String} (h : net.Joins source target)
    (hplaces : net.placeIds ⊆ net'.placeIds) (htransitions : net.transitionIds ⊆ net'.transitionIds) :
    net'.Joins source target :=
  h.imp (fun h => ⟨hplaces h.1, htransitions h.2⟩) fun h => ⟨htransitions h.1, hplaces h.2⟩

theorem Joins.swap {source target : String} (h : net.Joins source target) :
    net.Joins target source := h.symm.imp And.symm And.symm

theorem Joins.of_ids_eq {source target : String} (h : net.Joins source target)
    (hids : net'.placeIds = net.placeIds ∧ net'.transitionIds = net.transitionIds) :
    net'.Joins source target :=
  h.mono (hids.1 ▸ List.Subset.refl _) (hids.2 ▸ List.Subset.refl _)

/-- Where names are as they were and no flow is new, flows stay legal. -/
theorem Legal.of_ids_eq (h : net.Legal)
    (hids : net'.placeIds = net.placeIds ∧ net'.transitionIds = net.transitionIds)
    (hflows : ∀ f ∈ net'.flows, ∃ e ∈ net.flows, e.key = f.key ∧ e.data = f.data) : net'.Legal := by
  intro f hf
  obtain ⟨e, he, hkey, hdata⟩ := hflows f hf
  obtain ⟨hweight, hjoins⟩ := h e he
  rw [← hkey, ← hdata]
  exact ⟨hweight, hjoins.of_ids_eq hids⟩

theorem Legal.of_flows_eq (h : net.Legal)
    (hids : net'.placeIds = net.placeIds ∧ net'.transitionIds = net.transitionIds)
    (hflows : net'.flows = net.flows) : net'.Legal :=
  h.of_ids_eq hids fun f hf => ⟨f, hflows ▸ hf, rfl, rfl⟩

theorem Legal.removeNode (hl : net.Legal) (h : net.WellFormed) {n : Node Element}
    (call : net.removeNode id = .ok (n, net')) : net'.Legal := by
  obtain ⟨-, -, hflows⟩ := lists_removeNode h call
  obtain ⟨hplaces, htransitions⟩ := ids_removeNode h call
  intro f hf
  rw [hflows, List.mem_filter] at hf
  obtain ⟨hf, htouches⟩ := hf
  obtain ⟨hweight, hjoins⟩ := hl f hf
  have hends : f.key.source ≠ id ∧ f.key.target ≠ id := by
    simpa [EdgeKey.touches] using htouches
  have hkept : ∀ {v : String} {vs : List String}, v ≠ id → v ∈ vs → v ∈ vs.filter (· ≠ id) :=
    fun hne hv => List.mem_filter.2 ⟨hv, decide_eq_true hne⟩
  refine ⟨hweight, ?_⟩
  unfold Joins
  rw [hplaces, htransitions]
  exact hjoins.imp (fun h => ⟨hkept hends.1 h.1, hkept hends.2 h.2⟩)
    fun h => ⟨hkept hends.1 h.1, hkept hends.2 h.2⟩

theorem Built.legal (h : net.Built) : net.Legal := by
  induction h with
  | empty name => exact nofun
  | addPlace _ call ih =>
    obtain ⟨-, -, hflows⟩ := lists_addPlace call
    obtain ⟨hplaces, htransitions⟩ := ids_addPlace call
    intro f hf
    obtain ⟨hweight, hjoins⟩ := ih f (hflows ▸ hf)
    exact ⟨hweight, hjoins.mono (hplaces ▸ List.subset_append_left _ _)
      (htransitions ▸ List.Subset.refl _)⟩
  | addTransition _ call ih =>
    obtain ⟨-, -, hflows⟩ := lists_addTransition call
    obtain ⟨hplaces, htransitions⟩ := ids_addTransition call
    intro f hf
    obtain ⟨hweight, hjoins⟩ := ih f (hflows ▸ hf)
    exact ⟨hweight, hjoins.mono (hplaces ▸ List.Subset.refl _)
      (htransitions ▸ List.subset_append_left _ _)⟩
  | addFlow earlier _ call ih =>
    obtain ⟨hweight, hjoins, hnodes, hflows⟩ := lists_addFlow earlier.wellFormed call
    have hids := ids_of_nodes_eq hnodes
    intro f hf
    rw [hflows] at hf
    rcases List.mem_append.1 hf with hf | hf
    · exact ⟨(ih f hf).1, (ih f hf).2.of_ids_eq hids⟩
    · rw [List.mem_singleton.1 hf]
      exact ⟨Nat.pos_of_ne_zero hweight, hjoins.of_ids_eq hids⟩
  | removeFlow earlier call ih =>
    obtain ⟨hnodes, hflows⟩ := lists_removeFlow earlier.wellFormed call
    refine ih.of_ids_eq (ids_of_nodes_eq hnodes) fun f hf => ?_
    rw [hflows] at hf
    exact ⟨f, List.mem_of_mem_filter hf, rfl, rfl⟩
  | removeNode earlier call ih => exact ih.removeNode earlier.wellFormed call
  | rename _ name ih => exact ih
  | setTokens earlier call ih =>
    have hids := ids_setTokens earlier.wellFormed call
    obtain ⟨_, -, hnet⟩ := bind_eq_ok_iff.1 call
    exact ih.of_flows_eq hids (Except.ok.inj hnet ▸ rfl)
  | setLabel earlier call ih =>
    have hids := ids_setLabel earlier.wellFormed call
    obtain ⟨_, -, hnet⟩ := bind_eq_ok_iff.1 call
    exact ih.of_flows_eq hids (Except.ok.inj hnet ▸ rfl)
  | setInitialMarking earlier call ih =>
    obtain ⟨hids, hflows⟩ := ids_setInitialMarking earlier.wellFormed call
    exact ih.of_flows_eq hids hflows
  | modifyExtensions _ f ih => exact ih
  | modifyPlaceExtensions _ call ih =>
    obtain ⟨_, -, hnet⟩ := bind_eq_ok_iff.1 call
    obtain rfl := Except.ok.inj hnet
    exact ih.of_flows_eq (ids_modifyNodeExtensions _ _) rfl
  | modifyTransitionExtensions _ call ih =>
    obtain ⟨_, -, hnet⟩ := bind_eq_ok_iff.1 call
    obtain rfl := Except.ok.inj hnet
    exact ih.of_flows_eq (ids_modifyNodeExtensions _ _) rfl
  | modifyFlowExtensions _ call ih =>
    obtain ⟨_, -, hnet⟩ := bind_eq_ok_iff.1 call
    obtain rfl := Except.ok.inj hnet
    refine ih.of_ids_eq ⟨rfl, rfl⟩ fun f hf => ?_
    obtain ⟨e, he, rfl⟩ := List.mem_map.1 hf
    refine ⟨e, he, ?_⟩
    split <;> exact ⟨rfl, rfl⟩
  | copied _ ih =>
    refine ih.of_ids_eq (ids_copied _) fun f hf => ?_
    obtain ⟨e, he, rfl⟩ := List.mem_map.1 hf
    exact ⟨e, he, rfl, rfl⟩
  | reversed _ call ih =>
    have hids := ids_reversed call
    intro f hf
    rw [(lists_reversed call).2] at hf
    obtain ⟨e, he, rfl⟩ := List.mem_map.1 hf
    exact ⟨(ih e he).1, (ih e he).2.swap.of_ids_eq hids⟩

end Net

end PetriNets
