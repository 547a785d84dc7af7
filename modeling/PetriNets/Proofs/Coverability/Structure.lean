import PetriNets.Proofs.Coverability.Overflow
import PetriNets.Proofs.Coverability.Reachability

/-!
# The structure of a finished graph

A round of an exploration takes one node off the waiting ones and writes all its edges, one after the
other. So between two rounds every node is done or waits, a node that is done has noted the transitions
that it enables, and the edges are those of the nodes that are done, one node after the other
(`Explored`). At the end no node waits, and this tells where the edges of each node stand. Apart from
that every node but the first one was found from an earlier one, by an edge that stays (`Descends`).

What follows for the graph of a net is collected in `CoverabilityGraph.Finished`.
-/

namespace PetriNets

theorem Incidence.nodup_enabled (inc : Incidence) (m : Marking) : (inc.enabled m).Nodup := by
  have hentries : (inc.arcs.entries.map Prod.fst).Nodup := by
    rw [Table.map_fst_entries]
    exact Id.nodup_upTo _
  exact hentries.sublist (List.filter_sublist.map _)

theorem ExplorationOrder.perm_wait (order : ExplorationOrder) (id : NodeId) (waiting : List NodeId) :
    (order.wait id waiting).Perm (waiting ++ [id]) := by
  cases order with
  | breadthFirst => exact .refl _
  | depthFirst => exact (List.perm_append_singleton id waiting).symm

namespace Exploration

variable {p : Problem} {x y z : Exploration} {id i j target : NodeId} {node n : CoverNode}
  {t : TransitionId} {fired m : Marking} {trail : Trail} {rounds : Nat} {done waiting : List NodeId}

/-! ## Rounds -/

/-- What the edges were written for, in order: a node and a transition that is fired there. -/
def taken (x : Exploration) : List (NodeId × TransitionId) :=
  x.edges.toList.map fun e => (e.source, e.transition)

/-- What the edges of one node are written for. -/
def leaving (p : Problem) (x : Exploration) (i : NodeId) : List (NodeId × TransitionId) :=
  match x.nodes.get? i with
  | none => []
  | some n => (p.incidence.enabled n.marking).map (i, ·)

theorem leaving_of_get? (h : x.nodes.get? i = some n) :
    x.leaving p i = (p.incidence.enabled n.marking).map (i, ·) := by
  unfold leaving
  rw [h]

theorem fst_of_mem_leaving {e : NodeId × TransitionId} (h : e ∈ x.leaving p i) : e.1 = i := by
  unfold leaving at h
  split at h
  · cases h
  · obtain ⟨t, -, rfl⟩ := List.mem_map.1 h
    rfl

/-- A node that is taken up is numbered next and waits. -/
theorem Followed.ids_eq (h : Followed p id node x t fired target y) :
    ∃ new, y.nodes.ids = x.nodes.ids ++ new ∧ y.waiting.Perm (x.waiting ++ new) := by
  cases h with
  | known => exact ⟨[], (List.append_nil _).symm, .of_eq (List.append_nil _).symm⟩
  | fresh => exact ⟨[x.nodes.nextId], Table.ids_push, p.order.perm_wait _ _⟩

theorem Followed.taken_eq (h : Followed p id node x t fired target y) :
    y.taken = x.taken ++ [(id, t)] := by
  unfold taken
  rw [h.edges_eq, Array.toList_push, List.map_append]
  rfl

/-- How far a node has been expanded: the nodes of before are as they were, those taken up since wait,
and an edge has been written for each of the transitions. -/
structure Taking (id : NodeId) (x : Exploration) (ts : List (TransitionId × Arcs)) (y : Exploration) :
    Prop where
  nodes : ∀ i n, x.nodes.get? i = some n → y.nodes.get? i = some n
  ids : ∃ new, y.nodes.ids = x.nodes.ids ++ new ∧ y.waiting.Perm (x.waiting ++ new)
  taken : y.taken = x.taken ++ ts.map fun e => (id, e.1)

theorem Taking.refl (id : NodeId) (x : Exploration) : Taking id x [] x where
  nodes _ _ hn := hn
  ids := ⟨[], (List.append_nil _).symm, .of_eq (List.append_nil _).symm⟩
  taken := (List.append_nil _).symm

theorem Taking.follow {ts : List (TransitionId × Arcs)} {a : Arcs} (h : Taking id x ts y)
    (hstep : Followed p id node y t fired target z) : Taking id x (ts ++ [(t, a)]) z where
  nodes i n hn := hstep.get?_of_get? (h.nodes i n hn)
  ids := by
    obtain ⟨new, hids, hwaiting⟩ := h.ids
    obtain ⟨new', hids', hwaiting'⟩ := hstep.ids_eq
    refine ⟨new ++ new', ?_, ?_⟩
    · rw [hids', hids, List.append_assoc]
    · rw [← List.append_assoc]
      exact hwaiting'.trans (hwaiting.append_right new')
  taken := by
    rw [hstep.taken_eq, h.taken, List.map_append, List.append_assoc]
    rfl

/-- A round writes the edges of a node and notes what it enables; the nodes that it takes up wait. -/
structure Round (p : Problem) (id : NodeId) (node : CoverNode) (x y : Exploration) : Prop where
  expanded : y.nodes.get? id =
    some { node with status := .expanded (p.incidence.enabled node.marking) }
  nodes : ∀ i n, id ≠ i → x.nodes.get? i = some n → y.nodes.get? i = some n
  ids : ∃ new, y.nodes.ids = x.nodes.ids ++ new ∧ y.waiting.Perm (x.waiting ++ new)
  taken : y.taken = x.taken ++ (p.incidence.enabled node.marking).map (id, ·)

theorem round_of_expand (hnode : x.nodes.get? id = some node)
    (h : Exploration.expand p x id = .ok y) : Round p id node x y := by
  obtain ⟨z, hfold, rfl⟩ := (expand_eq_ok_iff hnode).1 h
  obtain ⟨hz, htaking⟩ := foldlM_follow_induction (Taking id x) hnode (.refl id x)
    (fun _ _ _ _ _ _ _ _ _ _ hstep hdone => hdone.follow hstep) hfold
  refine ⟨Table.get?_set_self hz, fun i n hne hn => ?_, ?_, ?_⟩
  · exact (Table.get?_set_of_ne hne).trans (htaking.nodes i n hn)
  · obtain ⟨new, hids, hwaiting⟩ := htaking.ids
    exact ⟨new, (congrArg Id.upTo Table.size_set).trans hids, hwaiting⟩
  · rw [Incidence.enabled, List.map_map]
    exact htaking.taken

/-- Where an exploration stands between two rounds, the nodes of the earlier rounds being done. -/
structure Explored (p : Problem) (done : List NodeId) (x : Exploration) : Prop where
  perm : (done ++ x.waiting).Perm x.nodes.ids
  status : ∀ i ∈ done, ∀ n, x.nodes.get? i = some n →
    n.status = .expanded (p.incidence.enabled n.marking)
  taken : x.taken = done.flatMap (x.leaving p)

theorem explored_start (p : Problem) (m : Marking) : Explored p [] (start m) where
  perm := .refl _
  status := nofun
  taken := rfl

/-- The node that is next is done after its round. -/
theorem Explored.round (hx : Explored p done x) (hwaiting : x.waiting = id :: waiting)
    (h : Round p id node { x with waiting } y) : Explored p (done ++ [id]) y := by
  have hperm := hx.perm
  rw [hwaiting] at hperm
  have hnodup : (done ++ id :: waiting).Nodup := hperm.nodup_iff.2 (Id.nodup_upTo _)
  -- the nodes that were done before are not touched
  have hother : ∀ j ∈ done, ∃ n, x.nodes.get? j = some n ∧ y.nodes.get? j = some n := by
    intro j hj
    have hne : id ≠ j := by
      rintro rfl
      exact List.disjoint_of_nodup_append hnodup hj List.mem_cons_self
    obtain ⟨n, hn⟩ := Table.mem_ids_iff.1 (hperm.mem_iff.1 (List.mem_append_left _ hj))
    exact ⟨n, hn, h.nodes j n hne hn⟩
  refine ⟨?_, fun j hj n hn => ?_, ?_⟩
  · obtain ⟨new, hids, hnew⟩ := h.ids
    have hshift : (done ++ [id]) ++ (waiting ++ new) = (done ++ id :: waiting) ++ new := by simp
    rw [hids]
    exact (hnew.append_left _).trans (hshift ▸ hperm.append_right new)
  · rcases List.mem_append.1 hj with hj | hj
    · obtain ⟨n', hold, hn'⟩ := hother j hj
      obtain rfl := Option.some.inj (hn.symm.trans hn')
      exact hx.status j hj n hold
    · obtain rfl := List.mem_singleton.1 hj
      obtain rfl := Option.some.inj (hn.symm.trans h.expanded)
      rfl
  · have hold : done.flatMap (x.leaving p) = done.flatMap (y.leaving p) := by
      refine List.flatMap_congr fun j hj => ?_
      obtain ⟨n, hn, hn'⟩ := hother j hj
      rw [leaving_of_get? hn, leaving_of_get? hn']
    rw [List.flatMap_append, List.flatMap_singleton, leaving_of_get? h.expanded, ← hold, ← hx.taken]
    exact h.taken

theorem Explored.expand (hx : Explored p done x) (hwaiting : x.waiting = id :: waiting)
    (h : Exploration.expand p { x with waiting } id = .ok y) : Explored p (done ++ [id]) y := by
  have hmem : id ∈ x.nodes.ids := hx.perm.mem_iff.1 (by simp [hwaiting])
  obtain ⟨node, hnode⟩ := Table.mem_ids_iff.1 hmem
  exact hx.round hwaiting (round_of_expand (x := { x with waiting }) hnode h)

theorem Explored.run (hx : Explored p done x) (h : Exploration.run p rounds x = .ok y) :
    ∃ done', Explored p done' y := by
  refine run_rounds (I := fun x => ∃ done, Explored p done x) ?_ ⟨done, hx⟩ h
  rintro x y id waiting hwaiting hexpand ⟨done, hx⟩
  exact ⟨done ++ [id], hx.expand hwaiting hexpand⟩

/-- At the end all nodes are done. -/
theorem explored_of_run (h : p.run rounds = .ok x) :
    ∃ done, Explored p done x ∧ done.Perm x.nodes.ids := by
  obtain ⟨done, hx⟩ := (explored_start p p.initial).run h
  have hperm := hx.perm
  rw [waiting_of_run h, List.append_nil] at hperm
  exact ⟨done, hx, hperm⟩

theorem source_mem_of_taken {es : List CoverEdge} {ids : List NodeId}
    (h : es.map (fun e => (e.source, e.transition)) = ids.flatMap (x.leaving p)) {e : CoverEdge}
    (he : e ∈ es) : e.source ∈ ids := by
  have hmem : (e.source, e.transition) ∈ ids.flatMap (x.leaving p) := h ▸ List.mem_map_of_mem he
  obtain ⟨j, hj, hleaving⟩ := List.mem_flatMap.1 hmem
  obtain rfl : e.source = j := fst_of_mem_leaving hleaving
  exact hj

/-- The edges of a node that is done stand together. -/
theorem Explored.exists_split (hx : Explored p done x) (hnodup : done.Nodup) (hi : i ∈ done)
    (hn : x.nodes.get? i = some n) : ∃ before own after, x.edges.toList = before ++ own ++ after ∧
      own.map CoverEdge.transition = p.incidence.enabled n.marking ∧ (∀ e ∈ own, e.source = i) ∧
      ∀ e ∈ before ++ after, e.source ≠ i := by
  obtain ⟨s, t, rfl⟩ := List.append_of_mem hi
  have hfresh : i ∉ s ++ t := (List.nodup_cons.1 (List.nodup_middle.1 hnodup)).1
  -- what the edges were written for falls into three parts, and so do the edges
  have htaken := hx.taken
  rw [List.flatMap_append, List.flatMap_cons, leaving_of_get? hn] at htaken
  obtain ⟨before, rest, hedges, hbefore, hrest⟩ := List.map_eq_append_iff.1 htaken
  obtain ⟨own, after, rfl, hown, hafter⟩ := List.map_eq_append_iff.1 hrest
  refine ⟨before, own, after, by rw [hedges, List.append_assoc], ?_, fun e he => ?_, fun e he => ?_⟩
  · have hsnd := congrArg (List.map Prod.snd) hown
    rw [List.map_map, List.map_map] at hsnd
    exact hsnd.trans (List.map_id _)
  · have hmem : (e.source, e.transition) ∈ (p.incidence.enabled n.marking).map (i, ·) :=
      hown ▸ List.mem_map_of_mem he
    obtain ⟨t, -, ht⟩ := List.mem_map.1 hmem
    exact (congrArg Prod.fst ht).symm
  · rintro rfl
    rcases List.mem_append.1 he with he | he
    · exact hfresh (List.mem_append_left _ (source_mem_of_taken hbefore he))
    · exact hfresh (List.mem_append_right _ (source_mem_of_taken hafter he))

/-- No transition is followed twice at a node. -/
theorem Explored.nodup_taken (hx : Explored p done x) (hnodup : done.Nodup) : x.taken.Nodup := by
  rw [hx.taken, List.nodup_flatMap]
  refine ⟨fun i _ => ?_, hnodup.imp fun {i j} hij e hi hj => ?_⟩
  · unfold leaving
    split
    · exact .nil
    · exact (p.incidence.nodup_enabled _).map (Prod.mk_right_injective i)
  · exact hij ((fst_of_mem_leaving hi).symm.trans (fst_of_mem_leaving hj))

/-! ## The tree -/

/-- Every node but the first one was found from an earlier one: its trail goes on from there, and an
edge leads to it. -/
def Descends (x : Exploration) : Prop :=
  ∀ i m trail, x.Found i m trail → i = ⟨0⟩ ∧ trail = [] ∨ ∃ s rest, trail = s :: rest ∧
    s.source.index < i.index ∧ x.Found s.source s.marking rest ∧
    ⟨s.source, i, s.transition⟩ ∈ x.edges

theorem descends_start (m : Marking) : Descends (start m) := by
  intro i n trail hi
  obtain ⟨rfl, -, rfl⟩ := found_start_iff.1 hi
  exact .inl ⟨rfl, rfl⟩

theorem Descends.mono (hx : Descends x) (hxy : Extends x y) (hi : x.Found i m trail) :
    i = ⟨0⟩ ∧ trail = [] ∨ ∃ s rest, trail = s :: rest ∧ s.source.index < i.index ∧
      y.Found s.source s.marking rest ∧ ⟨s.source, i, s.transition⟩ ∈ y.edges := by
  refine (hx i m trail hi).imp_right ?_
  rintro ⟨s, rest, htrail, hlt, hs, hedge⟩
  exact ⟨s, rest, htrail, hlt, hxy.found hs, hxy.edges _ hedge⟩

/-- A node is taken up with the number after those of all nodes there are. -/
theorem Followed.index_lt (h : Followed p id node x t fired target y) (hi : y.Found i m trail)
    (hnew : ∀ trail, ¬ x.Found i m trail) (hj : x.nodes.get? j = some n) : j.index < i.index := by
  obtain ⟨status, hi⟩ := hi
  cases h with
  | known => exact absurd ⟨status, hi⟩ (hnew trail)
  | fresh =>
    rcases Table.get?_push_eq_some hi with hold | ⟨rfl, -⟩
    · exact absurd ⟨status, hold⟩ (hnew trail)
    · exact Table.index_lt_of_get? hj

theorem kept_descends (p : Problem) : Kept p Descends where
  pop _ _ hx := hx
  follow id node t a fired target x y hnode hmem hfire hstep hx i m trail hi := by
    rcases hstep.found_cases_target hi with hold | ⟨rfl, -, rfl, hnew⟩
    · exact hx.mono hstep.grows hold
    · refine .inr ⟨_, _, rfl, ?_, hstep.grows.found (found_of_get? hnode), ?_⟩
      · exact hstep.index_lt hi (fun trail' hold => hnew i m trail' hold rfl) hnode
      · rw [hstep.edges_eq]
        exact Array.mem_push_self
  finish id node status x hnode hx i m trail hi :=
    hx.mono (grows_setStatus status hnode) ((found_setStatus_iff hnode).1 hi)

theorem descends_of_run (h : p.run rounds = .ok x) : Descends x :=
  (kept_descends p).run (descends_start p.initial) h

end Exploration

namespace CoverabilityGraph

/-- What can be relied on in the graph of a net. -/
structure Finished (net : Net) (g : CoverabilityGraph) : Prop where
  /-- The first node has the initial marking, and it was not found from another one. -/
  root : ∃ n, g.nodes.get? initial = some n ∧ n.marking = net.initialMarking ∧ n.parent? = none
  distinct : ∀ {i j n n'}, g.nodes.get? i = some n → g.nodes.get? j = some n' →
    n.marking = n'.marking → i = j
  status : ∀ {i n}, g.nodes.get? i = some n → n.status = .expanded (net.enabledTransitions n.marking)
  /-- The edges of a node stand together, one for each transition that it enables, in order. -/
  edges : ∀ {i n}, g.nodes.get? i = some n → ∃ before own after,
    g.edges.toList = before ++ own ++ after ∧
    own.map CoverEdge.transition = net.enabledTransitions n.marking ∧
    own.Pairwise (fun e e' => e.transition.index < e'.transition.index) ∧
    (∀ e ∈ own, e.source = i) ∧ ∀ e ∈ before ++ after, e.source ≠ i
  /-- Every edge leads from a node to the node of what its transition gives there. -/
  target : ∀ e ∈ g.edges, ∃ n n' fired, g.nodes.get? e.source = some n ∧
    g.nodes.get? e.target = some n' ∧ net.fire n.marking (.number e.transition) = .ok fired ∧
    n'.marking = fired.accelerate (n.trailVia e.source e.transition) ∧
    n'.marking.covers fired = true ∧ ∀ p, n.marking.count p = .omega → n'.marking.count p = .omega
  /-- Every other node was found from an earlier one, on an edge, and its trail goes on from there. -/
  parent : ∀ {i n}, g.nodes.get? i = some n → i ≠ initial → ∃ j t m, n.parent? = some (j, t) ∧
    j.index < i.index ∧ g.nodes.get? j = some m ∧ ⟨j, i, t⟩ ∈ g.edges ∧ n.trail = m.trailVia j t ∧
    ∀ p, m.marking.count p = .omega → n.marking.count p = .omega

variable {net : Net} {cap : Capacity} {rounds : Nat} {config : AnalysisConfig}
  {g : CoverabilityGraph} {i : NodeId} {n : CoverNode}

/-- Every edge is a step, and its target has the marking that acceleration makes of the outcome. -/
theorem exists_step_of_mem_edges (h : exploreWithin cap rounds config net = .ok g) {e : CoverEdge}
    (he : e ∈ g.edges) : ∃ n n' fired, g.nodes.get? e.source = some n ∧
      g.nodes.get? e.target = some n' ∧ net.fireWithin cap n.marking (.number e.transition) = .ok fired ∧
      n'.marking = fired.accelerate (n.trailVia e.source e.transition) ∧
      ∀ p, n.marking.count p = .omega → n'.marking.count p = .omega := by
  obtain ⟨x, hrun, rfl⟩ := exploreWithin_eq_ok_iff.1 h
  obtain ⟨m, trail, fired, trail', hsource, hstep, status', htarget⟩ :=
    Exploration.edgesFired_of_run hrun e he
  have hsize : m.size = net.placeCount :=
    (Problem.derives_of_run hrun hsource).size_eq.trans net.size_initialMarking
  obtain ⟨status, hsource⟩ := hsource
  exact ⟨_, _, fired, hsource, htarget, Net.fireWithin_eq_ok_iff.2 ⟨hsize, hstep⟩, rfl,
    fun _ => hstep.count_accelerate_eq_omega _⟩

/-- No edge is written twice. -/
theorem nodup_edges (h : exploreWithin cap rounds config net = .ok g) : g.edges.toList.Nodup := by
  obtain ⟨x, hrun, rfl⟩ := exploreWithin_eq_ok_iff.1 h
  obtain ⟨done, hdone, hperm⟩ := Exploration.explored_of_run hrun
  exact (hdone.nodup_taken (hperm.nodup_iff.2 (Id.nodup_upTo _))).of_map _

theorem exists_parent (h : exploreWithin cap rounds config net = .ok g) (hi : g.nodes.get? i = some n)
    (hne : i ≠ initial) : ∃ j t m, n.parent? = some (j, t) ∧ j.index < i.index ∧
      g.nodes.get? j = some m ∧ ⟨j, i, t⟩ ∈ g.edges ∧ n.trail = m.trailVia j t := by
  obtain ⟨x, hrun, rfl⟩ := exploreWithin_eq_ok_iff.1 h
  rcases Exploration.descends_of_run hrun i n.marking n.trail (Exploration.found_of_get? hi) with
    ⟨hroot, -⟩ | ⟨s, rest, htrail, hlt, ⟨status, hs⟩, hedge⟩
  · exact absurd hroot hne
  · refine ⟨s.source, s.transition, _, ?_, hlt, hs, hedge, htrail⟩
    unfold CoverNode.parent?
    rw [htrail]
    rfl

/-- A finished graph is the initial marking and what can be fired from there: its nodes are done, its
edges are what they enable, and the way to each node is recorded. -/
theorem finished (h : buildWithin rounds config net = .ok g) : Finished net g := by
  have hexplore : exploreWithin .word rounds config net = .ok g := h
  obtain ⟨x, hrun, rfl⟩ := exploreWithin_eq_ok_iff.1 hexplore
  obtain ⟨done, hdone, hperm⟩ := Exploration.explored_of_run hrun
  have hnodup : done.Nodup := hperm.nodup_iff.2 (Id.nodup_upTo _)
  have hmem : ∀ {i n}, x.nodes.get? i = some n → i ∈ done := fun hi =>
    hperm.mem_iff.2 (Table.mem_ids_iff.2 ⟨_, hi⟩)
  refine ⟨?root, id_eq_of_marking_eq hexplore, fun {i n} hi => ?status, fun {i n} hi => ?edges,
    fun e he => ?target, fun {i n} hi hne => ?parent⟩
  case root =>
    obtain ⟨status, hroot⟩ := Problem.found_root hrun
    exact ⟨_, hroot, rfl, rfl⟩
  case status =>
    rw [net.enabledTransitions_eq]
    exact hdone.status i (hmem hi) n hi
  case edges =>
    obtain ⟨before, own, after, hedges, hown, hsource, hother⟩ :=
      hdone.exists_split hnodup (hmem hi) hi
    have henabled : own.map CoverEdge.transition = net.enabledTransitions n.marking :=
      hown.trans (net.enabledTransitions_eq n.marking).symm
    have hascending := net.pairwise_enabledTransitions n.marking
    rw [← henabled, List.pairwise_map] at hascending
    exact ⟨before, own, after, hedges, henabled, hascending, hsource, hother⟩
  case target =>
    obtain ⟨n, n', fired, hn, hn', hfire, hmarking, homega⟩ := exists_step_of_mem_edges hexplore he
    exact ⟨n, n', fired, hn, hn', hfire, hmarking,
      Marking.covers_iff.2 (hmarking ▸ Marking.le_accelerate fired _), homega⟩
  case parent =>
    obtain ⟨j, t, m, hparent, hlt, hm, hedge, htrail⟩ := exists_parent hexplore hi hne
    obtain ⟨m', n', -, hm', hn', -, -, homega⟩ := exists_step_of_mem_edges hexplore hedge
    obtain rfl := Option.some.inj (hm.symm.trans hm')
    obtain rfl := Option.some.inj (hi.symm.trans hn')
    exact ⟨j, t, m, hparent, hlt, hm, hedge, htrail, homega⟩

/-- The three nodes of the pump, the last one with `ω` and an edge to itself. -/
theorem finished_pumpNet : ∃ net g, pumpNet = .ok net ∧ buildWithin 4 default net = .ok g ∧
    g.nodeCount = 3 ∧ Finished net g := by
  have hpump : ∃ net g, pumpNet = .ok net ∧ buildWithin 4 default net = .ok g ∧ g.nodeCount = 3 :=
    ⟨_, _, rfl, rfl, rfl⟩
  obtain ⟨net, g, hnet, hg, hcount⟩ := hpump
  exact ⟨net, g, hnet, hg, hcount, finished hg⟩

end CoverabilityGraph

end PetriNets
