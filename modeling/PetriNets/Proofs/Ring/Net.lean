import PetriNets.Net.Ring
import PetriNets.Proofs.Net.Firing
import PetriNets.Proofs.Text.Digits

/-!
# Building rings

A ring is built place by place and then step by step (`RingPart`). Every call is granted, since all names
are different, so there is a ring of every size (`exists_ring`).
-/

namespace PetriNets

/-! ## Calls that are granted -/

namespace Net

variable {net : Net}

theorem exists_insertNode {n : Node Element} (hplaces : n.id ∉ net.placeIds)
    (htransitions : n.id ∉ net.transitionIds) : ∃ g, net.graph.insertNode n = .ok g ∧
      g.nodes = net.graph.nodes ++ [n] ∧ g.edges = net.flows := by
  rw [placeIds_eq] at hplaces
  rw [transitionIds_eq] at htransitions
  have hnew : n.id ∉ net.graph.nodeIds := fun hid => (mem_ids_iff.1 hid).elim hplaces htransitions
  have hinsert := Graph.insertNode_eq_ok_iff.2 ⟨hnew, rfl⟩
  exact ⟨_, hinsert, Graph.lists_insertNode hinsert⟩

theorem exists_addPlace {p : Place} (hplaces : p.id ∉ net.placeIds)
    (htransitions : p.id ∉ net.transitionIds) : ∃ net', net.addPlace p = .ok (⟨net.placeCount⟩, net') ∧
      net'.places = net.places ++ [p] ∧ net'.transitions = net.transitions ∧
      net'.flows = net.flows := by
  obtain ⟨g, hinsert, hnodes, hedges⟩ := exists_insertNode (n := p.node) hplaces htransitions
  refine ⟨⟨g⟩, by unfold addPlace; rw [hinsert]; rfl, ?_, ?_, hedges⟩
  · unfold places
    rw [hnodes, List.filterMap_append]
    rfl
  · unfold transitions
    rw [hnodes, List.filterMap_append]
    exact List.append_nil _

theorem exists_addTransition {t : Transition} (hplaces : t.id ∉ net.placeIds)
    (htransitions : t.id ∉ net.transitionIds) :
    ∃ net', net.addTransition t = .ok (⟨net.transitionCount⟩, net') ∧
      net'.places = net.places ∧ net'.transitions = net.transitions ++ [t] ∧
      net'.flows = net.flows := by
  obtain ⟨g, hinsert, hnodes, hedges⟩ := exists_insertNode (n := t.node) hplaces htransitions
  refine ⟨⟨g⟩, by unfold addTransition; rw [hinsert]; rfl, ?_, ?_, hedges⟩
  · unfold places
    rw [hnodes, List.filterMap_append]
    exact List.append_nil _
  · unfold transitions
    rw [hnodes, List.filterMap_append]
    rfl

theorem exists_nodes_of_joins {source target : String} (h : net.Joins source target) :
    ∃ s ∈ net.graph.nodes, s.id = source ∧ ∃ t ∈ net.graph.nodes, t.id = target ∧
      s.data.isPlace ≠ t.data.isPlace := by
  unfold Joins at h
  rw [placeIds_eq, transitionIds_eq] at h
  obtain ⟨hs, ht⟩ | ⟨hs, ht⟩ := h
  all_goals
    obtain ⟨s, hs, hsource, hskind⟩ := mem_idsOf.1 hs
    obtain ⟨t, ht, htarget, htkind⟩ := mem_idsOf.1 ht
    exact ⟨s, hs, hsource, t, ht, htarget, by rw [hskind, htkind]; decide⟩

theorem exists_addFlow (h : net.WellFormed) {f : Flow} (hweight : f.data ≠ 0)
    (hjoins : net.Joins f.key.source f.key.target) (hnew : f.key ∉ net.flows.map Edge.key) :
    ∃ net', net.addFlow f = .ok net' ∧ net'.places = net.places ∧
      net'.transitions = net.transitions ∧ net'.flows = net.flows ++ [f] := by
  obtain ⟨s, hs, hsource, t, ht, htarget, hkinds⟩ := exists_nodes_of_joins hjoins
  have hinsert := (Graph.insertEdge_eq_ok_iff h.graph (e := f)).2
    ⟨hsource ▸ List.mem_map_of_mem hs, htarget ▸ List.mem_map_of_mem ht, hnew, rfl⟩
  obtain ⟨hnodes, hedges⟩ := Graph.lists_insertEdge hinsert
  refine ⟨⟨_⟩, ?_, congrArg (List.filterMap _) hnodes, congrArg (List.filterMap _) hnodes, hedges⟩
  unfold addFlow
  dsimp only
  rw [if_neg hweight, h.graph.node_eq_ok_iff.2 ⟨hs, hsource⟩, h.graph.node_eq_ok_iff.2 ⟨ht, htarget⟩]
  show (if s.data.isPlace = t.data.isPlace then _ else _) = _
  rw [if_neg hkinds, hinsert]
  rfl

end Net

/-! ## The parts of a ring -/

/-- The `i`-th transition of a ring. -/
def ringTransition (i : Nat) : Transition := ⟨s!"t{i}", s!"t{i}", ∅⟩

/-- The flows of the `i`-th transition of a ring of `n`: from the place before it and to the one after. -/
def ringFlows (n i : Nat) : List Flow :=
  [.between (ringPlace i).id (ringTransition i).id 1,
    .between (ringTransition i).id (ringPlace ((i + 1) % n)).id 1]

/-- What there is of a ring of `n` once it has `j` places and `k` transitions. -/
structure RingPart (n j k : Nat) (net : Net) : Prop where
  built : net.Built
  places : net.places = (List.range j).map ringPlace
  transitions : net.transitions = (List.range k).map ringTransition
  flows : net.flows = (List.range k).flatMap (ringFlows n)

variable {n i j k : Nat} {net : Net}

theorem id_ringPlace_injective : Function.Injective fun i => (ringPlace i).id := fun _ _ h =>
  Text.toString_injective ((String.append_right_inj "p").1 h)

theorem id_ringTransition_injective : Function.Injective fun i => (ringTransition i).id := fun _ _ h =>
  Text.toString_injective ((String.append_right_inj "t").1 h)

theorem id_ringPlace_ne (i j : Nat) : (ringPlace i).id ≠ (ringTransition j).id := by
  intro h
  have hchars : "p".toList ++ (toString i).toList = "t".toList ++ (toString j).toList := by
    rw [← String.toList_append, ← String.toList_append]
    exact congrArg String.toList h
  exact absurd (List.append_inj_left hchars rfl) (by decide)

namespace RingPart

section Lists

variable (h : RingPart n j k net)
include h

theorem placeIds_eq : net.placeIds = (List.range j).map fun i => (ringPlace i).id := by
  unfold Net.placeIds
  rw [h.places, List.map_map]
  rfl

theorem transitionIds_eq : net.transitionIds = (List.range k).map fun i => (ringTransition i).id := by
  unfold Net.transitionIds
  rw [h.transitions, List.map_map]
  rfl

theorem mem_flows_iff {f : Flow} : f ∈ net.flows ↔ ∃ i < k, f ∈ ringFlows n i := by
  rw [h.flows, List.mem_flatMap]
  simp only [List.mem_range]

theorem notMem_keys {f : Flow} (hf : f ∈ ringFlows n k) : f.key ∉ net.flows.map Edge.key := by
  intro hkey
  obtain ⟨e, he, heq⟩ := List.mem_map.1 hkey
  obtain ⟨i, hi, he⟩ := h.mem_flows_iff.1 he
  have hsource := congrArg EdgeKey.source heq
  have htarget := congrArg EdgeKey.target heq
  have hother : (ringTransition i).id ≠ (ringTransition k).id :=
    fun heq => Nat.ne_of_lt hi (id_ringTransition_injective heq)
  -- both flows would be flows of one transition, or one would leave a place and the other a transition
  simp only [ringFlows, List.mem_cons, List.not_mem_nil, or_false] at he hf
  rcases he with rfl | rfl <;> rcases hf with rfl | rfl
  · exact hother htarget
  · exact id_ringPlace_ne _ _ hsource
  · exact id_ringPlace_ne _ _ hsource.symm
  · exact hother hsource

end Lists

theorem exists_addPlace (h : RingPart n j 0 net) : ∃ i net',
    net.addPlace (ringPlace j) = .ok (i, net') ∧ RingPart n (j + 1) 0 net' := by
  have hplaces : (ringPlace j).id ∉ net.placeIds := by
    rw [h.placeIds_eq, List.mem_map]
    rintro ⟨i, hi, heq⟩
    exact Nat.ne_of_lt (List.mem_range.1 hi) (id_ringPlace_injective heq)
  have htransitions : (ringPlace j).id ∉ net.transitionIds := by
    rw [h.transitionIds_eq]
    exact List.not_mem_nil
  obtain ⟨net', hcall, hp, ht, hf⟩ := Net.exists_addPlace hplaces htransitions
  refine ⟨_, net', hcall, h.built.addPlace hcall, ?_, ht.trans h.transitions, hf.trans h.flows⟩
  rw [hp, h.places, List.range_succ, List.map_append]
  rfl

/-- One step more of the ring: the transition is new, and so are its flows. -/
theorem exists_addRingStep (h : RingPart n n k net) (hk : k < n) :
    ∃ net', addRingStep n net k = .ok net' ∧ RingPart n n (k + 1) net' := by
  have hplace : ∀ i < n, (ringPlace i).id ∈ net.placeIds := fun i hi => by
    rw [h.placeIds_eq]
    exact List.mem_map.2 ⟨i, List.mem_range.2 hi, rfl⟩
  have hnotPlace : (ringTransition k).id ∉ net.placeIds := by
    rw [h.placeIds_eq, List.mem_map]
    rintro ⟨i, -, heq⟩
    exact id_ringPlace_ne _ _ heq
  have hnotTransition : (ringTransition k).id ∉ net.transitionIds := by
    rw [h.transitionIds_eq, List.mem_map]
    rintro ⟨i, hi, heq⟩
    exact Nat.ne_of_lt (List.mem_range.1 hi) (id_ringTransition_injective heq)
  obtain ⟨net₁, hcall₁, hp₁, ht₁, hf₁⟩ := Net.exists_addTransition hnotPlace hnotTransition
  have hbuilt₁ := h.built.addTransition hcall₁
  have hids₁ : net₁.placeIds = net.placeIds := congrArg (List.map Place.id) hp₁
  have htransition₁ : (ringTransition k).id ∈ net₁.transitionIds := by
    unfold Net.transitionIds
    rw [ht₁]
    exact List.mem_map_of_mem (List.mem_append_right _ List.mem_cons_self)
  obtain ⟨net₂, hcall₂, hp₂, ht₂, hf₂⟩ := Net.exists_addFlow hbuilt₁.wellFormed
    (f := .between (ringPlace k).id (ringTransition k).id 1) one_ne_zero
    (.inl ⟨hids₁ ▸ hplace k hk, htransition₁⟩) (hf₁ ▸ h.notMem_keys List.mem_cons_self)
  have hbuilt₂ := hbuilt₁.addFlow rfl hcall₂
  have hids₂ : net₂.placeIds = net.placeIds := (congrArg (List.map Place.id) hp₂).trans hids₁
  have htransition₂ : (ringTransition k).id ∈ net₂.transitionIds := by
    unfold Net.transitionIds
    rwa [ht₂]
  have hnew : (Flow.between (ringTransition k).id (ringPlace ((k + 1) % n)).id 1).key ∉
      net₂.flows.map Edge.key := by
    rw [hf₂, hf₁, List.map_append, List.mem_append, not_or]
    refine ⟨h.notMem_keys (List.mem_cons_of_mem _ List.mem_cons_self), fun hkey => ?_⟩
    exact id_ringPlace_ne _ _ (congrArg EdgeKey.source (List.mem_singleton.1 hkey)).symm
  obtain ⟨net₃, hcall₃, hp₃, ht₃, hf₃⟩ := Net.exists_addFlow hbuilt₂.wellFormed one_ne_zero
    (.inr ⟨htransition₂, hids₂ ▸ hplace _ (Nat.mod_lt _ (Nat.zero_lt_of_lt hk))⟩) hnew
  refine ⟨net₃, bind_eq_ok_iff.2 ⟨_, hcall₁, bind_eq_ok_iff.2 ⟨_, hcall₂, hcall₃⟩⟩,
    hbuilt₂.addFlow rfl hcall₃, hp₃.trans (hp₂.trans (hp₁.trans h.places)), ?_, ?_⟩
  · rw [ht₃, ht₂, ht₁, h.transitions, List.range_succ, List.map_append]
    rfl
  · rw [hf₃, hf₂, hf₁, h.flows, List.range_succ, List.flatMap_append, List.append_assoc]
    rfl

end RingPart

/-- There is a ring of every size. -/
theorem exists_ring (n : Nat) : ∃ net, ring n = .ok net ∧ RingPart n n n net := by
  have hempty : RingPart n 0 0 (.empty s!"cycle-{n}") := ⟨.empty _, rfl, rfl, rfl⟩
  obtain ⟨net, hplaces, hpart⟩ := exists_foldlM_range (n := n) (fun j => RingPart n j 0) hempty
    (f := fun net i => return (← Net.addPlace net (ringPlace i)).2) fun j _ net hpart => by
      obtain ⟨i, net', hcall, hpart'⟩ := hpart.exists_addPlace
      exact ⟨net', bind_eq_ok_iff.2 ⟨_, hcall, rfl⟩, hpart'⟩
  obtain ⟨net', hsteps, hpart'⟩ := exists_foldlM_range (RingPart n n) hpart
    fun k hk net hpart => hpart.exists_addRingStep hk
  exact ⟨net', bind_eq_ok_iff.2 ⟨net, hplaces, hsteps⟩, hpart'⟩

end PetriNets
