import PetriNets.Proofs.Coverability.Graph
import PetriNets.Proofs.Coverability.Pumping
import PetriNets.Proofs.Coverability.Trail

/-!
# The graph overstates nothing

Along a trail every marking approaches each later one: a transition is fired, or the way from an
earlier marking, which by then can be gone, is gone as often as is wanted. So the marking of a node
is approached from the initial marking, by firing sequences of the net.
-/

namespace PetriNets

namespace Problem

variable {p : Problem} {trail : Trail} {m : Marking}

/-- A marking that a trail derives is approached from the initial one and from every marking of the
trail. -/
theorem Derives.approaches (h : p.Derives trail m) :
    p.incidence.Approaches p.initial m ∧ ∀ s ∈ trail, p.incidence.Approaches s.marking m := by
  induction h with
  | root => exact ⟨.refl _ _, nofun⟩
  | @step s trail fired earlier fire ih =>
    obtain ⟨hroot, htrail⟩ := ih
    have hfired : p.incidence.Approaches s.marking fired := .of_step fire
    refine Marking.accelerate_induction (C := fun m => p.incidence.Approaches p.initial m ∧
      ∀ s' ∈ s :: trail, p.incidence.Approaches s'.marking m) ⟨hroot.trans hfired, ?_⟩ ?_
    · intro s' hs'
      rcases List.mem_cons.1 hs' with rfl | hs'
      · exact hfired
      · exact (htrail s' hs').trans hfired
    · rintro m s' hs' ⟨hm, hall⟩ hlt
      -- the way from `s'` to `m`, with all the acceleration on it, is what is turned
      have hover : p.incidence.Approaches m (m.accelerateOver s'.marking) :=
        .accelerateOver hlt (hall s' hs')
      exact ⟨hm.trans hover, fun s'' hs'' => (hall s'' hs'').trans hover⟩

end Problem

namespace CoverabilityGraph

variable {net : Net} {cap : Capacity} {rounds : Nat} {config : AnalysisConfig}
  {g : CoverabilityGraph} {n : Marking} {id : NodeId} {node : CoverNode}

/-- The markings of the nodes are approximated by reachable ones. -/
theorem exists_reaches_approximating (h : exploreWithin cap rounds config net = .ok g)
    (hn : g.HasMarking n) (k : Nat) : ∃ ts m, net.Reaches ts m ∧ n.Approximates k m := by
  obtain ⟨x, hrun, rfl⟩ := exploreWithin_eq_ok_iff.1 h
  obtain ⟨id, trail, hfound⟩ := hasMarking_ofExploration_iff.1 hn
  obtain ⟨k', hk'⟩ := (Problem.derives_of_run hrun hfound).approaches.1 k
  obtain ⟨ts, m, hts, hm⟩ := hk' _ (Marking.approximates_self net.hasOmega_initialMarking)
  exact ⟨ts, m, Net.reaches_iff.2 hts, hm⟩

/-- No node overstates what the net can reach: some firing sequence of the net gives what the marking
of the node says where it is finite, and at least `k` tokens where it is `ω`. -/
theorem exists_reaches_of_node (h : buildWithin rounds config net = .ok g)
    (hnode : g.nodes.get? id = some node) (k : Nat) : ∃ ts m, net.Reaches ts m ∧ ∀ p,
      (∀ c, node.marking.count p = .finite c → m.count p = .finite c) ∧
      (node.marking.count p = .omega → ∃ c, k ≤ c ∧ m.count p = .finite c) := by
  have hn : g.HasMarking node.marking := ⟨node, Table.mem_toList_iff.2 ⟨id, hnode⟩, rfl⟩
  obtain ⟨ts, m, hts, hm⟩ := exists_reaches_approximating h hn k
  refine ⟨ts, m, hts, fun p => ?_⟩
  have hp := hm.count p
  constructor
  · intro c hc
    rwa [hc] at hp
  · intro homega
    rwa [homega] at hp

/-- The node of the running pump, which has any number of tokens in the tank. -/
theorem exists_reaches_of_node_pumpNet : ∃ net g node, pumpNet = .ok net ∧
    buildWithin 4 default net = .ok g ∧ g.nodes.get? ⟨2⟩ = some node ∧
    node.marking = ⟨[.finite 0, .finite 1, .omega]⟩ ∧ ∃ ts m, net.Reaches ts m ∧ ∀ p,
      (∀ c, node.marking.count p = .finite c → m.count p = .finite c) ∧
      (node.marking.count p = .omega → ∃ c, 7 ≤ c ∧ m.count p = .finite c) := by
  have hpump : ∃ net g node, pumpNet = .ok net ∧ buildWithin 4 default net = .ok g ∧
      g.nodes.get? ⟨2⟩ = some node ∧ node.marking = ⟨[.finite 0, .finite 1, .omega]⟩ :=
    ⟨_, _, _, rfl, rfl, rfl, rfl⟩
  obtain ⟨net, g, node, hnet, hg, hnode, hmarking⟩ := hpump
  exact ⟨net, g, node, hnet, hg, hnode, hmarking, exists_reaches_of_node hg hnode 7⟩

end CoverabilityGraph

end PetriNets
