import PetriNets.Net.Indexed
import PetriNets.Proofs.Action
import PetriNets.Proofs.Net.Tables

/-!
# Calls on the tables of a net

The tables that belong to a net are read off it (`Net.indexed`). A call on the tables comes to what
the same call on the net comes to (`onIndexed_indexed`): answered, it leaves the tables of the new net,
and refused, those of the old one. The reversed net is built step by step and may be given up half
way, which `Makes` allows for.
-/

namespace PetriNets

variable {ε α β γ : Type}

namespace Net

/-- The graph of a net with the names that can be read off it as tables. -/
def indexed (net : Net) : IndexedNet := ⟨net.graph, net.placeIds, net.transitionIds⟩

/-- What a call on a net is for its tables: refused, it leaves all of them as they are. -/
def outcome (net : Net) : Except ε (α × Net) → EStateM.Result ε IndexedNet α
  | .ok (a, net') => .ok a net'.indexed
  | .error e => .error e net.indexed

/-- What a question to a net is for its tables. -/
def asked (net : Net) : Except ε α → EStateM.Result ε IndexedNet α
  | .ok a => .ok a net.indexed
  | .error e => .error e net.indexed

end Net

theorem enterName_of_notMem {names : List String} {name : String} (h : name ∉ names) :
    enterName names name = (names.length, names ++ [name]) := by
  unfold enterName
  rw [List.idxOf?_eq_none_iff.2 h]

theorem erase_eq_filter_ne {names : List String} {name : String} (h : names.Nodup) :
    names.erase name = names.filter (· ≠ name) := by
  rw [h.erase_eq_filter]
  refine List.filter_congr fun v _ => ?_
  by_cases hv : v = name <;> simp [hv]

namespace IndexedNet

variable {net net' : Net} {id : String} {m : Marking} {x y : IndexedNet}
  {action : NetAction ε α} {next : α → NetAction ε β} {a : α} {e : ε}

/-! ## One step after the other -/

theorem asked_bind {r : Except ε α} {f : α → Except ε β} (haction : action net.indexed = net.asked r)
    (hnext : ∀ a, r = .ok a → next a net.indexed = net.asked (f a)) :
    (action >>= next) net.indexed = net.asked (r >>= f) := by
  cases r with
  | error e => exact bind_of_error haction
  | ok a =>
    rw [bind_of_ok haction]
    exact hnext a rfl

theorem asked_bind_outcome {r : Except ε α} {f : α → Except ε (β × Net)}
    (haction : action net.indexed = net.asked r)
    (hnext : ∀ a, r = .ok a → next a net.indexed = net.outcome (f a)) :
    (action >>= next) net.indexed = net.outcome (r >>= f) := by
  cases r with
  | error e => exact bind_of_error haction
  | ok a =>
    rw [bind_of_ok haction]
    exact hnext a rfl

theorem mapM_asked {f : γ → NetAction ε α} {f' : γ → Except ε α} {xs : List γ}
    (hf : ∀ x, f x net.indexed = net.asked (f' x)) :
    xs.mapM f net.indexed = net.asked (xs.mapM f') := by
  induction xs with
  | nil => rfl
  | cons x xs ih =>
    rw [List.mapM_cons, List.mapM_cons]
    refine asked_bind (hf x) fun a _ => ?_
    exact asked_bind ih fun as _ => rfl

/-- The action makes of a net the one that is given, or is refused for the same reason. Refused half
way, it leaves some net behind. -/
def Makes (action : NetAction ε Unit) (net : Net) (r : Except ε Net) : Prop :=
  ∃ last : Net, action net.indexed = last.outcome (r.map ((), ·))

theorem Makes.bind {action next : NetAction ε Unit} {r : Except ε Net} {f : Net → Except ε Net}
    (haction : Makes action net r) (hnext : ∀ net', r = .ok net' → Makes next net' (f net')) :
    Makes (action >>= fun _ => next) net (r >>= f) := by
  obtain ⟨last, hlast⟩ := haction
  cases r with
  | error e => exact ⟨last, bind_of_error hlast⟩
  | ok net' =>
    obtain ⟨last', hlast'⟩ := hnext net' rfl
    exact ⟨last', (bind_of_ok hlast).trans hlast'⟩

/-- Calls made one after the other, up to the first that is refused. -/
theorem makes_forM {f : γ → NetAction ε Unit} {op : Net → γ → Except ε Net} {xs : List γ}
    (hf : ∀ x net, Makes (f x) net (op net x)) (net : Net) :
    Makes (xs.forM f) net (xs.foldlM op net) := by
  induction xs generalizing net with
  | nil => exact ⟨net, rfl⟩
  | cons x xs ih =>
    rw [List.foldlM_cons]
    exact (hf x net).bind fun net' _ => ih net'

theorem node_indexed (net : Net) (id : String) :
    node id net.indexed = net.asked (net.graph.node id) := by
  show _ = net.asked (net.indexed.graph.node id)
  unfold node
  cases net.indexed.graph.node id <;> rfl

theorem changeGraph_of_ok {f : Graph Element Nat → Except GraphError (α × Graph Element Nat)}
    {g : Graph Element Nat} (h : f x.graph = .ok (a, g)) :
    changeGraph f x = .ok a { x with graph := g } := by
  unfold changeGraph
  rw [h]

theorem changeGraph_of_error {f : Graph Element Nat → Except GraphError (α × Graph Element Nat)}
    {err : GraphError} (h : f x.graph = .error err) : changeGraph f x = .error err x := by
  unfold changeGraph
  rw [h]

/-- A change of the graph that adds no node and takes none out keeps the tables in step. -/
theorem changeGraph_indexed {f : Graph Element Nat → Except GraphError (α × Graph Element Nat)}
    (hids : ∀ a g, f net.graph = .ok (a, g) →
      (Net.mk g).placeIds = net.placeIds ∧ (Net.mk g).transitionIds = net.transitionIds) :
    changeGraph f net.indexed = net.outcome ((f net.graph).map fun r => (r.1, Net.mk r.2)) := by
  cases hf : f net.graph with
  | error e => exact changeGraph_of_error hf
  | ok r =>
    obtain ⟨a, g⟩ := r
    obtain ⟨hplaces, htransitions⟩ := hids a g hf
    refine (changeGraph_of_ok hf).trans ?_
    show EStateM.Result.ok a (IndexedNet.mk g net.placeIds net.transitionIds) = .ok a (Net.indexed ⟨g⟩)
    rw [Net.indexed, hplaces, htransitions]

/-- A change of the graph, and what is done to the tables for it to be one of the net. -/
theorem changeGraph_bind {change : Graph Element Nat → Except GraphError (β × Graph Element Nat)}
    {next : β → NetAction GraphError α} {f : β × Graph Element Nat → α × Net}
    (hnext : ∀ r, change net.graph = .ok r →
      next r.1 { net.indexed with graph := r.2 } = net.outcome (.ok (f r))) :
    (changeGraph change >>= next) net.indexed = net.outcome ((change net.graph).map f) := by
  cases hr : change net.graph with
  | error e => exact bind_of_error (changeGraph_of_error hr)
  | ok r => exact (bind_of_ok (changeGraph_of_ok hr)).trans (hnext r hr)

/-! ## Single calls -/

theorem addPlace_indexed (net : Net) (p : Place) :
    addPlace p net.indexed = net.outcome (net.addPlace p) := by
  have hnet : net.addPlace p = (do return ((), ← net.graph.insertNode p.node)).map
      fun r : Unit × Graph Element Nat => (⟨net.placeCount⟩, ⟨r.2⟩) := by
    unfold Net.addPlace
    cases net.graph.insertNode p.node <;> rfl
  rw [hnet]
  refine changeGraph_bind fun r hr => ?_
  rw [hr] at hnet
  obtain ⟨g, hg, hnew⟩ := bind_eq_ok_iff.1 hr
  obtain rfl := Except.ok.inj hnew
  have hnotMem : p.id ∉ net.placeIds := by
    intro hmem
    rw [Net.placeIds_eq] at hmem
    exact (Graph.insertNode_eq_ok_iff.1 hg).1 (mem_ids_iff.2 (.inl hmem))
  obtain ⟨hplaces, htransitions⟩ := Net.ids_addPlace hnet
  show EStateM.Result.ok (⟨(enterName net.placeIds p.id).1⟩ : PlaceId) 
    (IndexedNet.mk g (enterName net.placeIds p.id).2 net.transitionIds) =
    .ok ⟨net.placeCount⟩ (Net.indexed ⟨g⟩)
  rw [enterName_of_notMem hnotMem, Net.length_placeIds, Net.indexed, hplaces, htransitions]

theorem addTransition_indexed (net : Net) (t : Transition) :
    addTransition t net.indexed = net.outcome (net.addTransition t) := by
  have hnet : net.addTransition t = (do return ((), ← net.graph.insertNode t.node)).map
      fun r : Unit × Graph Element Nat => (⟨net.transitionCount⟩, ⟨r.2⟩) := by
    unfold Net.addTransition
    cases net.graph.insertNode t.node <;> rfl
  rw [hnet]
  refine changeGraph_bind fun r hr => ?_
  rw [hr] at hnet
  obtain ⟨g, hg, hnew⟩ := bind_eq_ok_iff.1 hr
  obtain rfl := Except.ok.inj hnew
  have hnotMem : t.id ∉ net.transitionIds := by
    intro hmem
    rw [Net.transitionIds_eq] at hmem
    exact (Graph.insertNode_eq_ok_iff.1 hg).1 (mem_ids_iff.2 (.inr hmem))
  obtain ⟨hplaces, htransitions⟩ := Net.ids_addTransition hnet
  show EStateM.Result.ok (⟨(enterName net.transitionIds t.id).1⟩ : TransitionId) 
    (IndexedNet.mk g net.placeIds (enterName net.transitionIds t.id).2) =
    .ok ⟨net.transitionCount⟩ (Net.indexed ⟨g⟩)
  rw [enterName_of_notMem hnotMem, Net.length_transitionIds, Net.indexed, hplaces, htransitions]

theorem removeFlow_indexed (h : net.WellFormed) (source target : String) :
    removeFlow source target net.indexed = net.outcome (net.removeFlow source target) := by
  unfold removeFlow
  rw [changeGraph_indexed fun f g hg => Net.ids_of_nodes_eq (h.graph.lists_removeEdge hg).1]
  unfold Net.removeFlow
  cases net.graph.removeEdge ⟨source, target, none⟩ <;> rfl

theorem createFlow_indexed (net : Net) (source target : String) (weight : Nat) :
    createFlow source target weight net.indexed = net.outcome do
      return (Flow.between source target weight, ← net.createFlow source target weight) := by
  by_cases hweight : weight = 0
  · subst hweight
    rfl
  · have hnet : (do return (Flow.between source target weight, ← net.createFlow source target weight)) =
        net.graph.node source >>= fun s => net.graph.node target >>= fun t =>
          if s.data.isPlace = t.data.isPlace then .error (.illegalFlow source target)
          else (net.graph.insertEdge (Flow.between source target weight)).map fun g =>
            (Flow.between source target weight, Net.mk g) := by
      unfold Net.createFlow Net.addFlow
      rw [if_neg (show (Flow.between source target weight).data ≠ 0 from hweight)]
      show (net.graph.node source >>= fun s => net.graph.node target >>= _) >>= _ = _
      cases net.graph.node source with
      | error e => rfl
      | ok s =>
        show (net.graph.node target >>= _) >>= _ = net.graph.node target >>= _
        cases net.graph.node target with
        | error e => rfl
        | ok t =>
          show (if s.data.isPlace = t.data.isPlace then _ else _) >>= _ = ite _ _ _
          split
          · rfl
          · cases net.graph.insertEdge (Flow.between source target weight) <;> rfl
    rw [hnet]
    unfold createFlow
    rw [if_neg hweight]
    refine asked_bind_outcome (node_indexed net source) fun s hs => ?_
    refine asked_bind_outcome (node_indexed net target) fun t ht => ?_
    split
    · rfl
    · refine (changeGraph_indexed fun f g hg => ?_).trans ?_
      · obtain ⟨g', hg', hnew⟩ := bind_eq_ok_iff.1 hg
        obtain ⟨-, rfl⟩ := Prod.mk.inj (Except.ok.inj hnew)
        exact Net.ids_of_nodes_eq (Graph.lists_insertEdge hg').1
      · dsimp only
        cases net.graph.insertEdge (Flow.between source target weight) <;> rfl

theorem removeNode_indexed (h : net.WellFormed) (id : String) :
    removeNode id net.indexed = net.outcome (net.removeNode id) := by
  have hnet : net.removeNode id = (net.graph.removeNode id).map fun r => (r.1, ⟨r.2⟩) := by
    unfold Net.removeNode
    cases net.graph.removeNode id <;> rfl
  rw [hnet]
  refine changeGraph_bind fun r hr => ?_
  rw [hr] at hnet
  obtain ⟨n, g⟩ := r
  obtain ⟨hplaces, htransitions⟩ := Net.ids_removeNode h hnet
  obtain ⟨⟨hn, rfl⟩, -, -⟩ := Net.lists_removeNode h hnet
  have hindexed : Net.indexed ⟨g⟩ = ⟨g, net.placeIds.filter (· ≠ n.id),
      net.transitionIds.filter (· ≠ n.id)⟩ := by
    unfold Net.indexed
    rw [hplaces, htransitions]
  show _ = EStateM.Result.ok n (Net.indexed ⟨g⟩)
  rw [hindexed]
  have hnodup := h.graph.nodup_nodeIds
  -- the name of a node is in one table only, so leaving it out leaves the other table as it is
  cases hdata : n.data with
  | place tokens =>
    have hother : net.transitionIds.filter (· ≠ n.id) = net.transitionIds := by
      rw [Net.transitionIds_eq]
      exact filter_ne_idsOf hnodup hn (by rw [hdata]; exact nofun)
    show EStateM.Result.ok n (IndexedNet.mk g (net.placeIds.erase n.id) net.transitionIds) = _
    rw [hother, erase_eq_filter_ne (Net.nodup_placeIds h)]
  | transition label =>
    have hother : net.placeIds.filter (· ≠ n.id) = net.placeIds := by
      rw [Net.placeIds_eq]
      exact filter_ne_idsOf hnodup hn (by rw [hdata]; exact nofun)
    show EStateM.Result.ok n (IndexedNet.mk g net.placeIds (net.transitionIds.erase n.id)) = _
    rw [hother, erase_eq_filter_ne (Net.nodup_transitionIds h)]

/-- Other data for a node, of the same kind, change nothing in the tables. -/
theorem modifyData_indexed (h : net.WellFormed) {n : Node Element} {d : Element}
    (hn : n ∈ net.graph.nodes) (hkind : n.data.isPlace = d.isPlace) :
    { net.indexed with graph := net.graph.modifyData n.id fun _ => d } =
      Net.indexed ⟨net.graph.modifyData n.id fun _ => d⟩ := by
  have hsame : ∀ m ∈ net.graph.nodes, m.id = n.id → m.data.isPlace = d.isPlace := by
    intro m hm hid
    rw [List.inj_on_of_nodup_map h.graph.nodup_nodeIds hm hn hid, hkind]
  obtain ⟨hplaces, htransitions⟩ := Net.ids_modifyData hsame
  unfold Net.indexed
  rw [hplaces, htransitions]

theorem setTokens_indexed (h : net.WellFormed) (id : String) (tokens : Nat) :
    setTokens id tokens net.indexed = net.outcome ((net.setTokens id tokens).map ((), ·)) := by
  have hnet : (net.setTokens id tokens).map ((), ·) = net.graph.node id >>= fun n =>
      if n.data.isPlace then .ok ((), ⟨net.graph.modifyData id fun _ => .place tokens⟩)
      else .error (.notAPlace id) := by
    unfold Net.setTokens Net.place
    cases net.graph.node id with
    | error e => rfl
    | ok n =>
      obtain ⟨v, data, extensions⟩ := n
      cases data <;> rfl
  rw [hnet]
  refine asked_bind_outcome (node_indexed net id) fun n hn => ?_
  obtain ⟨hmem, rfl⟩ := h.graph.node_eq_ok_iff.1 hn
  obtain ⟨v, data, extensions⟩ := n
  cases data with
  | transition label => rfl
  | place count => exact congrArg (EStateM.Result.ok ()) (modifyData_indexed h hmem rfl)

theorem setLabel_indexed (h : net.WellFormed) (id label : String) :
    setLabel id label net.indexed = net.outcome ((net.setLabel id label).map ((), ·)) := by
  have hnet : (net.setLabel id label).map ((), ·) = net.graph.node id >>= fun n =>
      if n.data.isPlace then .error (.notATransition id)
      else .ok ((), ⟨net.graph.modifyData id fun _ => .transition label⟩) := by
    unfold Net.setLabel Net.transition
    cases net.graph.node id with
    | error e => rfl
    | ok n =>
      obtain ⟨v, data, extensions⟩ := n
      cases data <;> rfl
  rw [hnet]
  refine asked_bind_outcome (node_indexed net id) fun n hn => ?_
  obtain ⟨hmem, rfl⟩ := h.graph.node_eq_ok_iff.1 hn
  obtain ⟨v, data, extensions⟩ := n
  cases data with
  | place tokens => rfl
  | transition old => exact congrArg (EStateM.Result.ok ()) (modifyData_indexed h hmem rfl)

theorem copied_indexed (net : Net) : net.indexed.copied = net.copied.indexed := by
  obtain ⟨hplaces, htransitions⟩ := Net.ids_copied net
  unfold Net.indexed copied
  rw [hplaces, htransitions]
  rfl

/-! ## A new initial marking -/

/-- Going through a marking by number names the places in their order. -/
theorem map_placeName_entries (h : m.size = net.placeCount) :
    m.entries.map (fun e => (net.placeName e.1, e.2)) = net.placeIds.zip m.tokens := by
  unfold Marking.entries Marking.places
  rw [h, ← Net.map_placeName_upTo, List.zip_map_left]
  rfl

theorem setTokensOf_indexed (h : net.WellFormed) {e : String × Nat} (he : e.1 ∈ net.placeIds) :
    setTokensOf e net.indexed = .ok () (Net.indexed ⟨net.graph.modifyData e.1 fun _ => .place e.2⟩) := by
  have hcall : setTokens e.1 e.2 net.indexed = _ := setTokens_indexed h e.1 e.2
  rw [Net.placeIds_eq] at he
  obtain ⟨n, hn, hid, hkind⟩ := mem_idsOf.1 he
  obtain ⟨v, data, extensions⟩ := n
  cases data with
  | transition label => cases hkind
  | place count =>
    have hplace := (Net.place_eq_ok_iff (p := ⟨v, count, extensions⟩) h).2 ⟨hn, hid⟩
    unfold Net.setTokens at hcall
    rw [hplace] at hcall
    unfold setTokensOf
    rw [hcall]
    rfl

theorem forM_setTokensOf (h : net.WellFormed) (counts : List (String × Nat))
    (hcounts : ∀ e ∈ counts, e.1 ∈ net.placeIds) : counts.forM setTokensOf net.indexed = .ok ()
      (counts.foldl (fun net e => Net.mk (net.graph.modifyData e.1 fun _ => .place e.2)) net).indexed := by
  induction counts generalizing net with
  | nil => rfl
  | cons e counts ih =>
    obtain ⟨he, hrest⟩ := List.forall_mem_cons.1 hcounts
    have hids := Net.ids_modifyData (d := .place e.2) (Net.isPlace_of_mem_placeIds h he)
    refine (bind_of_ok (setTokensOf_indexed h he)).trans ?_
    exact ih (h.modifyData e.1 fun _ => .place e.2) (by rw [hids.1]; exact hrest)

/-- What a marking says of one place, for an initial marking. -/
def countOf (e : String × Token) : Except FireError (String × Nat) :=
  match e.2.finite? with
  | some n => .ok (e.1, n)
  | none => .error (.omegaToken e.1)

theorem eq_of_countOf {e : String × Token} {r : String × Nat} (h : countOf e = .ok r) :
    r.1 = e.1 := by
  unfold countOf at h
  split at h
  · exact Except.ok.inj h ▸ rfl
  · cases h

theorem setInitialMarking_indexed (h : net.WellFormed) (m : Marking) :
    setInitialMarking m net.indexed = net.outcome ((net.setInitialMarking m).map ((), ·)) := by
  by_cases hsize : m.size = net.placeCount
  · have hcheck : net.checkMarking m = .ok () := Net.checkMarking_eq_ok_iff.2 hsize
    have hlength : ¬ m.size ≠ net.indexed.placeIds.length := by
      show ¬ m.size ≠ net.placeIds.length
      rw [Net.length_placeIds]
      exact not_not_intro hsize
    have hnet : (net.setInitialMarking m).map ((), ·) =
        (net.placeIds.zip m.tokens).mapM countOf >>= fun counts => .ok ((),
          counts.foldl (fun net e => Net.mk (net.graph.modifyData e.1 fun _ => .place e.2)) net) := by
      unfold Net.setInitialMarking
      rw [hcheck]
      show ((net.placeIds.zip m.tokens).mapM countOf >>= _).map _ = _
      cases (net.placeIds.zip m.tokens).mapM countOf <;> rfl
    rw [hnet, ← map_placeName_entries hsize, List.mapM_map]
    unfold setInitialMarking
    refine (bind_of_ok (y := net.indexed) rfl).trans ?_
    rw [if_neg hlength]
    refine asked_bind_outcome (mapM_asked fun e => ?_) fun counts hcounts => ?_
    · unfold countOf
      cases hfinite : e.2.finite? <;> simp only [Function.comp_apply, hfinite] <;> rfl
    · refine forM_setTokensOf h counts fun e he => ?_
      rw [← List.mapM_map, map_placeName_entries hsize] at hcounts
      obtain ⟨x, hx, hcount⟩ := exists_of_mem_mapM hcounts he
      rw [eq_of_countOf hcount]
      exact (List.of_mem_zip hx).1
  · have hnet : net.setInitialMarking m = .error (.markingMismatch net.placeCount m.size) := by
      unfold Net.setInitialMarking Net.checkMarking
      rw [if_neg hsize]
      rfl
    have hlength : m.size ≠ net.indexed.placeIds.length := by
      show m.size ≠ net.placeIds.length
      rwa [Net.length_placeIds]
    rw [hnet, ← Net.length_placeIds]
    unfold setInitialMarking
    refine (bind_of_ok (y := net.indexed) rfl).trans ?_
    rw [if_pos hlength]
    rfl

/-! ## The reversed net -/

theorem places_indexed (h : net.WellFormed) : net.indexed.places = net.places := by
  have hlookup : ∀ p ∈ net.places, (net.graph.node p.id).toOption.bind Node.asPlace? = some p := by
    intro p hp
    obtain ⟨n, hn, hplace⟩ := List.mem_filterMap.1 hp
    obtain ⟨v, data, extensions⟩ := n
    cases data with
    | transition label => cases hplace
    | place tokens =>
      obtain rfl := Option.some.inj hplace
      rw [h.graph.node_eq_ok_iff.2 ⟨hn, rfl⟩]
      rfl
  show (net.places.map Place.id).filterMap _ = _
  rw [List.filterMap_map]
  exact (List.filterMap_congr hlookup).trans List.filterMap_some

theorem transitions_indexed (h : net.WellFormed) : net.indexed.transitions = net.transitions := by
  have hlookup : ∀ t ∈ net.transitions,
      (net.graph.node t.id).toOption.bind Node.asTransition? = some t := by
    intro t ht
    obtain ⟨n, hn, htransition⟩ := List.mem_filterMap.1 ht
    obtain ⟨v, data, extensions⟩ := n
    cases data with
    | place tokens => cases htransition
    | transition label =>
      obtain rfl := Option.some.inj htransition
      rw [h.graph.node_eq_ok_iff.2 ⟨hn, rfl⟩]
      rfl
  show (net.transitions.map Transition.id).filterMap _ = _
  rw [List.filterMap_map]
  exact (List.filterMap_congr hlookup).trans List.filterMap_some

/-- A call made for the net alone. -/
theorem makes_discard {r : Except ε (α × Net)} (h : action net.indexed = net.outcome r) :
    Makes (discard action) net (do return (← r).2) := by
  refine ⟨net, ?_⟩
  cases r with
  | error e => exact bind_of_error h
  | ok r => exact bind_of_ok h

theorem makes_insertEdge (net : Net) (f : Flow) :
    Makes (changeGraph fun g => return ((), ← g.insertEdge f)) net
      ((net.graph.insertEdge f).map Net.mk) := by
  refine ⟨net, (changeGraph_indexed fun _ g hg => ?_).trans ?_⟩
  · obtain ⟨g', hg', hnew⟩ := bind_eq_ok_iff.1 hg
    obtain ⟨-, rfl⟩ := Prod.mk.inj (Except.ok.inj hnew)
    exact Net.ids_of_nodes_eq (Graph.lists_insertEdge hg').1
  · cases net.graph.insertEdge f <;> rfl

theorem foldlM_insertEdge_eq (fs : List Flow) (net : Net) :
    fs.foldlM (fun r f => (Net.graph r |>.insertEdge (Flow.reversed f)).map Net.mk) net =
      (do return ⟨← fs.foldlM (fun g f => g.insertEdge (Flow.reversed f)) net.graph⟩) := by
  induction fs generalizing net with
  | nil => rfl
  | cons f fs ih =>
    rw [List.foldlM_cons, List.foldlM_cons]
    cases hg : net.graph.insertEdge f.reversed with
    | error e => rfl
    | ok g => exact ih ⟨g⟩

/-- Turning the flows around, with tables and without, comes to the same net. -/
theorem reversed_indexed (h : net.WellFormed) :
    net.indexed.reversed = net.reversed.map Net.indexed := by
  let start := (Net.empty net.name).modifyExtensions fun _ => net.extensions.copied
  have hmakes : Makes net.indexed.addReversed start net.reversed := by
    unfold addReversed
    rw [places_indexed h, transitions_indexed h]
    refine (makes_forM (fun p r => makes_discard (addPlace_indexed r _)) _).bind fun r _ => ?_
    refine (makes_forM (fun t r => makes_discard (addTransition_indexed r _)) _).bind fun r _ => ?_
    rw [← foldlM_insertEdge_eq]
    exact makes_forM (fun f r => makes_insertEdge r _) r
  obtain ⟨last, hlast⟩ := hmakes
  have hreversed : net.indexed.reversed = kept (net.indexed.addReversed start.indexed) := rfl
  rw [hreversed, hlast]
  cases net.reversed <;> rfl

theorem reverse_indexed (h : net.WellFormed) :
    reverse net.indexed = net.outcome (net.reversed.map ((), ·)) := by
  unfold reverse
  rw [reversed_indexed h]
  cases net.reversed <;> rfl

/-! ## Every call -/

theorem told_indexed {answer : α → NetAnswer} {error : ε → NetError} {r : Except ε (α × Net)}
    (h : action net.indexed = net.outcome r) :
    NetCall.told answer error action net.indexed = net.outcome (NetCall.answered answer error r) := by
  unfold NetCall.told
  rw [h]
  cases r <;> rfl

/-- A call on the tables of a net comes to what it comes to on the net. -/
theorem onIndexed_indexed (h : net.WellFormed) (c : NetCall) :
    c.onIndexed net.indexed = net.outcome (c.onNet net) := by
  cases c with
  | createPlace id => exact told_indexed (addPlace_indexed net _)
  | addPlace p => exact told_indexed (addPlace_indexed net p)
  | createTransition id => exact told_indexed (addTransition_indexed net _)
  | createLabelledTransition id label => exact told_indexed (addTransition_indexed net _)
  | addTransition t => exact told_indexed (addTransition_indexed net t)
  | createFlow source target weight => exact told_indexed (createFlow_indexed net source target weight)
  | removeFlow source target => exact told_indexed (removeFlow_indexed h source target)
  | removeNode id => exact told_indexed (removeNode_indexed h id)
  | setTokens id tokens => exact told_indexed (setTokens_indexed h id tokens)
  | setLabel id label => exact told_indexed (setLabel_indexed h id label)
  | setInitialMarking m => exact told_indexed (setInitialMarking_indexed h m)
  | copy =>
    show EStateM.Result.ok NetAnswer.done net.indexed.copied = _
    rw [copied_indexed]
    rfl
  | reverse => exact told_indexed (reverse_indexed h)

end IndexedNet

end PetriNets
