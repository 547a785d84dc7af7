import PetriNets.Proofs.Boundedness
import PetriNets.Proofs.Coverability.Deadlocks
import PetriNets.Proofs.Coverability.Overflow
import PetriNets.Proofs.Coverability.Structure
import PetriNets.Proofs.Coverability.System
import PetriNets.Proofs.Ring.Firing

/-!
# The coverability graph of a ring

A ring has a coverability graph, as no place ever holds more than one token (`exists_build`). In whichever
order its nodes are expanded, each of them is found from the one before it: the `k`-th node has the token
on the `k`-th place (`node_eq`), so there are as many nodes as places, and from each of them one edge
leads on (`mem_edges_iff`).
-/

namespace PetriNets

/-- The edge from the `k`-th node of the graph of a ring of `n`. -/
def ringEdge (n k : Nat) : CoverEdge := ⟨⟨k⟩, ⟨(k + 1) % n⟩, ⟨k⟩⟩

theorem ringEdge_injective (n : Nat) : Function.Injective (ringEdge n) := fun _ _ h =>
  congrArg (fun e => e.source.index) h

namespace RingPart

open CoverabilityGraph

variable {n rounds : Nat} {net : Net} {config : AnalysisConfig} {g : CoverabilityGraph} {i : NodeId}
  {node : CoverNode} {e : CoverEdge} {v l w : String}

theorem count_le_of_reachable (h : RingPart n n n net) (hn : 0 < n) {m : Marking} {p : PlaceId} {c : Nat}
    (hm : m ∈ net.reachable) (hc : m.count p = .finite c) : c ≤ 1 := by
  obtain ⟨k, hk, rfl⟩ := (h.mem_reachable_iff hn).1 hm
  rw [count_ringMarking hk, Token.finite.injEq] at hc
  rw [← hc]
  split <;> decide

theorem exists_build (h : RingPart n n n net) (hn : 0 < n) (hlimit : config.stateLimit = none) :
    ∃ g, build config net = .ok g := by
  cases hbuild : build config net with
  | ok g => exact ⟨g, rfl⟩
  | error e =>
    obtain ⟨halt, hrun, -⟩ := exploreWithin_eq_error_iff.1 hbuild
    have hkept := (net.problem .word config).kept_derivesAll
    rcases hkept.of_run_eq_error (Problem.derivesAll_start _) hrun with rfl |
      ⟨x, t, fault, hderives, hstuck, -⟩ | ⟨limit, hsome, -⟩
    · exact absurd hrun (Problem.run_enoughRounds_ne rfl)
    · obtain ⟨q, -, -, -, ts, m, c, hts, hc, hover⟩ :=
        Net.exists_reaches_overflow h.built hderives hstuck
      have hle : c ≤ 1 := h.count_le_of_reachable hn ⟨_, hts⟩ hc
      exact absurd (hle.trans (by decide)) (of_decide_eq_false hover)
    · exact absurd (hlimit.symm.trans hsome) nofun

theorem finite_reachable (h : RingPart n n n net) (hn : 0 < n) : net.reachable.Finite := by
  refine ((Set.finite_lt_nat n).image (ringMarking n)).subset fun m hm => ?_
  obtain ⟨k, hk, rfl⟩ := (h.mem_reachable_iff hn).1 hm
  exact ⟨k, hk, rfl⟩

section Built

variable (h : RingPart n n n net) (hn : 0 < n) (hg : buildWithin rounds config net = .ok g)
include h hn hg

theorem hasOmega_eq_false : g.hasOmega = false :=
  (finite_reachable_iff hg).1 (h.finite_reachable hn)

/-- The nodes are numbered as the places are. A node that is not the first one was found from an earlier
one. If that was not the one right before it, the one right after that was there already, with the same
marking. -/
theorem node_eq (hi : g.nodes.get? i = some node) :
    i.index < n ∧ node.marking = ringMarking n i.index := by
  have homega := h.hasOmega_eq_false hn hg
  obtain ⟨root, hroot, hinitial⟩ := exists_root hg
  rw [h.initialMarking_eq] at hinitial
  obtain ⟨i⟩ := i
  induction i using Nat.strongRecOn generalizing node with
  | _ i ih =>
    by_cases hzero : i = 0
    · subst hzero
      obtain rfl := Option.some.inj (hroot.symm.trans hi)
      exact ⟨hn, hinitial⟩
    · have hne : (⟨i⟩ : NodeId) ≠ initial := fun heq => hzero (congrArg Id.index heq)
      obtain ⟨⟨j⟩, t, parent, -, hlt, hj, hedge, -⟩ := exists_parent hg hi hne
      obtain ⟨(hjn : j < n), hparent⟩ := ih j hlt hj
      have hstep := (CoverabilityGraph.mem_edges_iff hg homega hj hi).1 hedge
      rw [hparent, h.step_iff Capacity.holds_word_one hjn] at hstep
      obtain ⟨-, hmarking⟩ := hstep
      have hnext : j + 1 < n := by
        by_contra hend
        have hback : (j + 1) % n = 0 := by
          rw [show j + 1 = n by omega, Nat.mod_self]
        rw [hback, ← hinitial] at hmarking
        exact hne (id_eq_of_marking_eq hg hi hroot hmarking)
      rw [Nat.mod_eq_of_lt hnext] at hmarking
      have hsame : i = j + 1 := by
        by_contra hlater
        have hbefore : j + 1 < i := Nat.lt_of_le_of_ne hlt (Ne.symm hlater)
        have hsize : j + 1 < g.nodes.size := hbefore.trans (Table.index_lt_of_get? hi)
        obtain ⟨other, hother⟩ := Table.exists_get?_of_lt (i := ⟨j + 1⟩) hsize
        have hmark := (ih (j + 1) hbefore hother).2
        exact hlater (congrArg Id.index (id_eq_of_marking_eq hg hi hother (hmarking.trans hmark.symm)))
      exact ⟨hsame ▸ hnext, hsame ▸ hmarking⟩

theorem exists_node (k : Nat) (hk : k < n) :
    ∃ node, g.nodes.get? ⟨k⟩ = some node ∧ node.marking = ringMarking n k := by
  have homega := h.hasOmega_eq_false hn hg
  obtain ⟨ts, hts⟩ := (h.mem_reachable_iff hn).2 ⟨k, hk, rfl⟩
  obtain ⟨i, node, hi, hmarking, -⟩ := exists_node_of_reaches hg homega hts
  obtain ⟨hlt, hmarking'⟩ := h.node_eq hn hg hi
  obtain rfl : i.index = k := ringMarking_injOn hlt hk (hmarking'.symm.trans hmarking)
  exact ⟨node, hi, hmarking⟩

theorem nodeCount_eq : g.nodeCount = n := by
  refine Nat.le_antisymm ?_ ?_
  · by_contra hlt
    obtain ⟨node, hnode⟩ := Table.exists_get?_of_lt (t := g.nodes) (i := ⟨n⟩) (Nat.lt_of_not_le hlt)
    exact Nat.lt_irrefl n (h.node_eq hn hg hnode).1
  · have hlast : n - 1 < n := Nat.sub_lt hn Nat.one_pos
    obtain ⟨node, hnode, -⟩ := h.exists_node hn hg (n - 1) hlast
    have hlt : n - 1 < g.nodes.size := Table.index_lt_of_get? hnode
    show n ≤ g.nodes.size
    omega

theorem mem_edges_iff : e ∈ g.edges ↔ ∃ k < n, ringEdge n k = e := by
  have homega := h.hasOmega_eq_false hn hg
  obtain ⟨i, j, t⟩ := e
  constructor
  · intro hedge
    obtain ⟨node, node', hi, hj⟩ := exists_ends_of_mem_edges hg hedge
    have hstep := (CoverabilityGraph.mem_edges_iff hg homega hi hj).1 hedge
    obtain ⟨hin, hmarking⟩ := h.node_eq hn hg hi
    obtain ⟨hjn, hmarking'⟩ := h.node_eq hn hg hj
    rw [hmarking, hmarking', h.step_iff Capacity.holds_word_one hin] at hstep
    obtain ⟨rfl, htarget⟩ := hstep
    have hnext := ringMarking_injOn hjn (Nat.mod_lt _ hn) htarget
    exact ⟨i.index, hin, by unfold ringEdge; rw [← hnext]⟩
  · rintro ⟨k, hk, heq⟩
    obtain ⟨rfl, rfl, rfl⟩ := CoverEdge.mk.inj heq
    obtain ⟨node, hi, hmarking⟩ := h.exists_node hn hg k hk
    obtain ⟨node', hj, hmarking'⟩ := h.exists_node hn hg _ (Nat.mod_lt (k + 1) hn)
    rw [CoverabilityGraph.mem_edges_iff hg homega hi hj, hmarking, hmarking',
      h.step_iff Capacity.holds_word_one hk]
    exact ⟨rfl, rfl⟩

theorem edgeCount_eq : g.edgeCount = n := by
  have hperm : g.edges.toList.Perm ((List.range n).map (ringEdge n)) := by
    rw [List.perm_ext_iff_of_nodup (nodup_edges hg) (List.nodup_range.map (ringEdge_injective n))]
    intro e
    rw [Array.mem_toList_iff, h.mem_edges_iff hn hg, List.mem_map]
    simp only [List.mem_range]
  rw [edgeCount, ← Array.length_toList, hperm.length_eq, List.length_map, List.length_range]

theorem deadlocks_eq_nil : g.deadlocks = [] := by
  refine List.eq_nil_iff_forall_not_mem.2 fun i hi => ?_
  obtain ⟨node, hnode, hdead⟩ := mem_deadlocks.1 hi
  obtain ⟨hk, hmarking⟩ := h.node_eq hn hg hnode
  obtain ⟨a, ha, hfire⟩ := (h.step_iff (Capacity.holds_none 1) hk).2 ⟨rfl, rfl⟩
  have hcovered : a.isEnabled node.marking = true := hmarking ▸ Arcs.isEnabled_of_fire hfire
  have henabled : ⟨i.index⟩ ∈ net.incidence.enabled node.marking :=
    List.mem_map.2 ⟨_, Incidence.mem_enabledArcs.2 ⟨ha, hcovered⟩, rfl⟩
  rw [← Net.enabledTransitions_eq, ← enabled_of_get? hg hnode, hdead] at henabled
  cases henabled

/-- One token is the most that a place ever holds. -/
theorem boundedness_eq : g.boundedness = .bounded 1 := by
  rw [boundedness_of_finite hg (h.finite_reachable hn)]
  refine congrArg _ (Nat.le_antisymm ?_ ?_)
  · rcases largestCount_eq_or g with hzero | ⟨m, p, hm, -, hcount⟩
    · rw [hzero]
      decide
    · refine h.count_le_of_reachable hn ?_ hcount
      exact (hasMarking_iff_mem_reachable hg (h.hasOmega_eq_false hn hg)).1 hm
  · obtain ⟨root, hroot, hmarking⟩ := h.exists_node hn hg 0 hn
    refine le_largestCount (hasMarking_of_get? hroot) (p := ⟨0⟩) ?_
    rw [hmarking, count_ringMarking hn]
    rfl

theorem hasArc_system_iff : g.system.HasArc v l w ↔ ∃ k < n,
    v = stateName k ∧ l = (ringTransition k).id ∧ w = stateName ((k + 1) % n) := by
  have hlabel : ∀ k < n, (g.label? ⟨k⟩).getD "" = (ringTransition k).id := by
    intro k hk
    rw [label?_eq hg, Net.transitionAt?, h.transitions]
    simp [hk]
    rfl
  rw [CoverabilityGraph.hasArc_system_iff hg]
  constructor
  · rintro ⟨i, j, t, hedge, rfl, rfl, rfl⟩
    obtain ⟨k, hk, heq⟩ := (h.mem_edges_iff hn hg).1 hedge
    obtain ⟨rfl, rfl, rfl⟩ := CoverEdge.mk.inj heq
    exact ⟨k, hk, rfl, hlabel k hk, rfl⟩
  · rintro ⟨k, hk, rfl, rfl, rfl⟩
    exact ⟨_, _, _, (h.mem_edges_iff hn hg).2 ⟨k, hk, rfl⟩, rfl, rfl, hlabel k hk⟩

end Built

end RingPart

end PetriNets
