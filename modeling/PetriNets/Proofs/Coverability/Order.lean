import Mathlib.Data.Set.Function
import PetriNets.Proofs.Boundedness
import PetriNets.Proofs.Coverability.Reachability
import PetriNets.Proofs.Net.InStep
import PetriNets.Proofs.OrderedList

/-!
# The order of exploration does not show

`order_irrelevant`: two graphs of one net, in whatever order they have been explored, give the same
answers. Their nodes need not agree: a marking is accelerated over those before it on its own way from
the root, and another order finds another way.

So each answer is said in terms of the net alone. The unbounded places are those whose counts have no
upper bound, the bound of a place is the greatest of its counts. A marking is covered if and only if
reachable markings cover it with any number of tokens in the place of its `ω` (`covers_iff_reachable`):
nodes overstate nothing, and a number that is greater than every count in the graph is only covered by
`ω`.

Without `ω` the nodes have just the reachable markings, each of them once, and the edges are the steps
between these, so that the nodes of two graphs are paired off by their markings (`exists_renumbers`).
-/

namespace PetriNets

/-! ## Numbers in the place of `ω` -/

/-- Tokens with so many in the place of `ω`. -/
def Token.lowered (k : Nat) : Token → Token
  | finite c => finite c
  | omega => finite k

/-- The marking with so many tokens in the place of each `ω`. -/
def Marking.lowered (k : Nat) (m : Marking) : Marking := ⟨m.tokens.map (Token.lowered k)⟩

namespace Token

variable {s t u : Token} {b k l : Nat}

/-- What approximates well enough is not only below `ω`. -/
theorem lowered_le_of_approximates (hst : s ≤ t) (h : t.Approximates l u) (hk : k ≤ l)
    (hs : ∀ c, s = finite c → c ≤ l) : s.lowered k ≤ u := by
  cases t with
  | finite d =>
    obtain rfl : u = finite d := h
    cases s with
    | finite c => exact hst
    | omega => exact absurd hst not_omega_le_finite
  | omega =>
    obtain ⟨d, hd, rfl⟩ := h
    cases s with
    | finite c => exact finite_le_finite.2 ((hs c rfl).trans hd)
    | omega => exact finite_le_finite.2 (hk.trans hd)

/-- More than any finite count is only below `ω`. -/
theorem le_of_lowered_le (h : s.lowered (b + 1) ≤ t) (ht : ∀ c, t = finite c → c ≤ b) : s ≤ t := by
  cases s with
  | finite c => exact h
  | omega =>
    cases t with
    | finite d => exact absurd (ht d rfl) (Nat.not_le_of_lt (finite_le_finite.1 h))
    | omega => exact le_omega

end Token

namespace Marking

variable {m n : Marking} {k : Nat}

@[simp] theorem size_lowered (k : Nat) (m : Marking) : (m.lowered k).size = m.size :=
  List.length_map _

@[simp] theorem count_lowered (k : Nat) (m : Marking) (p : PlaceId) :
    (m.lowered k).count p = (m.count p).lowered k := by
  unfold count lowered
  rw [List.getElem?_map]
  cases m.tokens[p.index]? <;> rfl

end Marking

/-- An edge between nodes with other numbers. -/
def CoverEdge.renumbered (f : NodeId → NodeId) (e : CoverEdge) : CoverEdge :=
  ⟨f e.source, f e.target, e.transition⟩

namespace CoverabilityGraph

variable {net : Net} {cap : Capacity} {rounds rounds' : Nat} {config config' : AnalysisConfig}
  {g g' : CoverabilityGraph} {i j : NodeId} {m m' : Marking} {p : PlaceId} {t : TransitionId}

/-! ## Answers in terms of the net -/

theorem covers_iff_reachable (h : exploreWithin cap rounds config net = .ok g) :
    g.covers m = true ↔ ∀ k, ∃ l ∈ net.reachable, m.lowered k ≤ l := by
  rw [covers_eq_true_iff]
  constructor
  · rintro ⟨n, hn, hle⟩ k
    -- where the node has `ω`, there are as many as wanted and as many as the marking has
    obtain ⟨ts, l, hts, hl⟩ := exists_reaches_approximating h hn (max k (Problem.largestCount m))
    have hsize : (m.lowered k).size = l.size := by
      rw [Marking.size_lowered, hl.1, Marking.size_eq_of_le hle]
    refine ⟨l, ⟨ts, hts⟩, hsize, fun p => ?_⟩
    rw [Marking.count_lowered]
    exact Token.lowered_le_of_approximates (Marking.count_le_of_le hle p) (hl.count p)
      (Nat.le_max_left _ _) fun c hc => (Problem.le_largestCount hc).trans (Nat.le_max_right _ _)
  · intro hall
    obtain ⟨l, hl, hle⟩ := hall (g.largestCount + 1)
    obtain ⟨n, hn, hcov⟩ := exists_ge_of_mem_reachable h hl
    have hbelow : m.lowered (g.largestCount + 1) ≤ n := hle.trans hcov
    have hsize : m.size = n.size := by
      rw [← Marking.size_eq_of_le hbelow, Marking.size_lowered]
    refine ⟨n, hn, hsize, fun p => ?_⟩
    have hp := Marking.count_le_of_le hbelow p
    rw [Marking.count_lowered] at hp
    exact Token.le_of_lowered_le hp fun c hc => le_largestCount hn hc

/-! ## Two graphs of one net -/

section TwoGraphs

variable (h : exploreWithin cap rounds config net = .ok g)
  (h' : exploreWithin cap rounds' config' net = .ok g')
include h h'

theorem unboundedPlaces_eq : g.unboundedPlaces = g'.unboundedPlaces := by
  have hascending : ∀ g : CoverabilityGraph, Ascending (compareOn Id.index) g.unboundedPlaces :=
    fun g => g.pairwise_unboundedPlaces.imp Nat.compare_eq_lt.2
  refine (hascending g).eq_of_mem_iff (hascending g') fun p => ?_
  rw [mem_unboundedPlaces_iff h, mem_unboundedPlaces_iff h']

theorem placeBound_eq (p : PlaceId) : g.placeBound p = g'.placeBound p := by
  cases hp : g'.placeBound p with
  | finite b => rwa [placeBound_eq_finite_iff h, ← placeBound_eq_finite_iff h']
  | omega => rwa [placeBound_eq_omega_iff, unboundedPlaces_eq h h', ← placeBound_eq_omega_iff]

theorem covers_eq (m : Marking) : g.covers m = g'.covers m := by
  rw [Bool.eq_iff_iff, covers_iff_reachable h, covers_iff_reachable h']

theorem hasOmega_eq : g.hasOmega = g'.hasOmega := by
  have hiff : g.hasOmega = false ↔ g'.hasOmega = false := by
    rw [← finite_reachable_iff h, ← finite_reachable_iff h']
  cases hg : g'.hasOmega with
  | false => exact hiff.2 hg
  | true => exact Bool.of_not_eq_false fun hfalse => absurd (hiff.1 hfalse) (hg ▸ nofun)

end TwoGraphs

/-! ## Without `ω` -/

/-- Some edge of the graph leads from the first marking to the second one. -/
def HasStep (g : CoverabilityGraph) (m : Marking) (t : TransitionId) (m' : Marking) : Prop :=
  ∃ i j n n', ⟨i, j, t⟩ ∈ g.edges ∧ g.nodes.get? i = some n ∧ g.nodes.get? j = some n' ∧
    n.marking = m ∧ n'.marking = m'

theorem hasStep_iff (h : exploreWithin cap rounds config net = .ok g) (homega : g.hasOmega = false) :
    g.HasStep m t m' ↔ m ∈ net.reachable ∧ net.incidence.Step cap m t m' := by
  constructor
  · rintro ⟨i, j, n, n', hedge, hi, hj, rfl, rfl⟩
    have hm := (hasMarking_iff_mem_reachable h homega).1 (hasMarking_of_get? hi)
    exact ⟨hm, (mem_edges_iff h homega hi hj).1 hedge⟩
  · rintro ⟨hm, hstep⟩
    have hm' : m' ∈ net.reachable := Net.mem_reachable_of_step hm hstep
    obtain ⟨i, n, hi, rfl⟩ := exists_node ((hasMarking_iff_mem_reachable h homega).2 hm)
    obtain ⟨j, n', hj, rfl⟩ := exists_node ((hasMarking_iff_mem_reachable h homega).2 hm')
    exact ⟨i, j, n, n', (mem_edges_iff h homega hi hj).2 hstep, hi, hj, rfl, rfl⟩

/-- Each node of the first graph is given a node of the second one that has its marking. -/
def Matches (f : NodeId → NodeId) (g g' : CoverabilityGraph) : Prop :=
  ∀ i n, g.nodes.get? i = some n → ∃ n', g'.nodes.get? (f i) = some n' ∧ n'.marking = n.marking

/-- The second graph is the first one with other numbers for its nodes. -/
structure Renumbers (f : NodeId → NodeId) (g g' : CoverabilityGraph) : Prop where
  nodes : Set.BijOn f {i | i ∈ g.nodes.ids} {i | i ∈ g'.nodes.ids}
  root : f initial = initial
  markings : Matches f g g'
  edges : Set.BijOn (CoverEdge.renumbered f) {e | e ∈ g.edges} {e | e ∈ g'.edges}

theorem ends_mem_ids (h : exploreWithin cap rounds config net = .ok g) {e : CoverEdge}
    (he : e ∈ g.edges) : e.source ∈ g.nodes.ids ∧ e.target ∈ g.nodes.ids := by
  obtain ⟨n, n', hn, hn'⟩ := exists_ends_of_mem_edges h he
  exact ⟨Table.mem_ids_iff.2 ⟨n, hn⟩, Table.mem_ids_iff.2 ⟨n', hn'⟩⟩

section WithoutOmega

variable (h : exploreWithin cap rounds config net = .ok g)
  (h' : exploreWithin cap rounds' config' net = .ok g') (homega : g.hasOmega = false)
include h h' homega

theorem hasMarking_iff : g.HasMarking m ↔ g'.HasMarking m := by
  have homega' : g'.hasOmega = false := hasOmega_eq h h' ▸ homega
  rw [hasMarking_iff_mem_reachable h homega, hasMarking_iff_mem_reachable h' homega']

theorem hasStep_iff_hasStep : g.HasStep m t m' ↔ g'.HasStep m t m' := by
  have homega' : g'.hasOmega = false := hasOmega_eq h h' ▸ homega
  rw [hasStep_iff h homega, hasStep_iff h' homega']

theorem exists_matches : ∃ f, Matches f g g' := by
  have hpair : ∀ i, ∃ j, ∀ n, g.nodes.get? i = some n →
      ∃ n', g'.nodes.get? j = some n' ∧ n'.marking = n.marking := by
    intro i
    cases hi : g.nodes.get? i with
    | none => exact ⟨i, nofun⟩
    | some n =>
      obtain ⟨j, n', hj, hm⟩ := exists_node ((hasMarking_iff h h' homega).1 (hasMarking_of_get? hi))
      refine ⟨j, ?_⟩
      rintro _ ⟨⟩
      exact ⟨n', hj, hm⟩
  choose f hf using hpair
  exact ⟨f, hf⟩

/-! Numbers that match the markings match everything, since no two nodes have the same marking. -/

namespace Matches

variable {f : NodeId → NodeId} (hf : Matches f g g')
include hf

omit homega in
theorem root : f initial = initial := by
  obtain ⟨n, hn, hm⟩ := exists_root h
  obtain ⟨n', hn', hm'⟩ := exists_root h'
  obtain ⟨k, hk, hkm⟩ := hf initial n hn
  exact id_eq_of_marking_eq h' hk hn' (by rw [hkm, hm, hm'])

theorem bijOn_nodes : Set.BijOn f {i | i ∈ g.nodes.ids} {i | i ∈ g'.nodes.ids} := by
  refine ⟨fun i hi => ?_, fun i hi j hj hij => ?_, fun j hj => ?_⟩
  · obtain ⟨n, hn⟩ := Table.mem_ids_iff.1 hi
    obtain ⟨k, hk, -⟩ := hf i n hn
    exact Table.mem_ids_iff.2 ⟨k, hk⟩
  · obtain ⟨n, hn⟩ := Table.mem_ids_iff.1 hi
    obtain ⟨l, hl⟩ := Table.mem_ids_iff.1 hj
    obtain ⟨k, hk, hkm⟩ := hf i n hn
    obtain ⟨k', hk', hkm'⟩ := hf j l hl
    rw [hij, hk'] at hk
    obtain rfl := Option.some.inj hk
    exact id_eq_of_marking_eq h hn hl (hkm.symm.trans hkm')
  · obtain ⟨n', hn'⟩ := Table.mem_ids_iff.1 hj
    obtain ⟨i, n, hn, hm⟩ := exists_node ((hasMarking_iff h h' homega).2 (hasMarking_of_get? hn'))
    obtain ⟨k, hk, hkm⟩ := hf i n hn
    exact ⟨i, Table.mem_ids_iff.2 ⟨n, hn⟩, id_eq_of_marking_eq h' hk hn' (hkm.trans hm)⟩

theorem mem_edges_iff (hi : i ∈ g.nodes.ids) (hj : j ∈ g.nodes.ids) :
    ⟨f i, f j, t⟩ ∈ g'.edges ↔ ⟨i, j, t⟩ ∈ g.edges := by
  have homega' : g'.hasOmega = false := hasOmega_eq h h' ▸ homega
  obtain ⟨n, hn⟩ := Table.mem_ids_iff.1 hi
  obtain ⟨n', hn'⟩ := Table.mem_ids_iff.1 hj
  obtain ⟨k, hk, hkm⟩ := hf i n hn
  obtain ⟨k', hk', hkm'⟩ := hf j n' hn'
  rw [CoverabilityGraph.mem_edges_iff h homega hn hn',
    CoverabilityGraph.mem_edges_iff h' homega' hk hk', hkm, hkm']

theorem bijOn_edges : Set.BijOn (CoverEdge.renumbered f) {e | e ∈ g.edges} {e | e ∈ g'.edges} := by
  have hnodes := hf.bijOn_nodes h h' homega
  refine ⟨fun e he => ?_, fun e he e' he' heq => ?_, fun e he => ?_⟩
  · obtain ⟨hsource, htarget⟩ := ends_mem_ids h he
    exact (hf.mem_edges_iff h h' homega hsource htarget).2 he
  · obtain ⟨hsource, htarget⟩ := ends_mem_ids h he
    obtain ⟨hsource', htarget'⟩ := ends_mem_ids h he'
    obtain ⟨i, j, t⟩ := e
    obtain ⟨i', j', t'⟩ := e'
    obtain ⟨hi, hj, rfl⟩ := CoverEdge.mk.inj heq
    obtain rfl : i = i' := hnodes.injOn hsource hsource' hi
    obtain rfl : j = j' := hnodes.injOn htarget htarget' hj
    rfl
  · obtain ⟨hsource, htarget⟩ := ends_mem_ids h' he
    obtain ⟨k, l, t⟩ := e
    obtain ⟨i, hi, rfl⟩ := hnodes.surjOn hsource
    obtain ⟨j, hj, rfl⟩ := hnodes.surjOn htarget
    exact ⟨⟨i, j, t⟩, (hf.mem_edges_iff h h' homega hi hj).1 he, rfl⟩

end Matches

theorem exists_renumbers : ∃ f, Renumbers f g g' := by
  obtain ⟨f, hf⟩ := exists_matches h h' homega
  exact ⟨f, hf.bijOn_nodes h h' homega, hf.root h h', hf, hf.bijOn_edges h h' homega⟩

end WithoutOmega

/-! ## The answers -/

/-- Two graphs of one net, explored in whatever order, have the same unbounded places, the same bound
for each place, and cover the same markings. If one of them has no `ω`, then neither has the other, and
they have the same markings and the same steps between these: they only differ in their numbers. -/
theorem order_irrelevant (h : buildWithin rounds config net = .ok g)
    (h' : buildWithin rounds' config' net = .ok g') :
    g.unboundedPlaces = g'.unboundedPlaces ∧
    (∀ p, g.placeBound p = g'.placeBound p) ∧
    (∀ m, g.covers m = g'.covers m) ∧
    g.hasOmega = g'.hasOmega ∧
    (g.hasOmega = false →
      (∀ m, g.HasMarking m ↔ g'.HasMarking m) ∧
      (∀ m t m', g.HasStep m t m' ↔ g'.HasStep m t m') ∧
      ∃ f, Renumbers f g g') :=
  ⟨unboundedPlaces_eq h h', placeBound_eq h h', covers_eq h h', hasOmega_eq h h', fun homega =>
    ⟨fun _ => hasMarking_iff h h' homega, fun _ _ _ => hasStep_iff_hasStep h h' homega,
      exists_renumbers h h' homega⟩⟩

/-- A way that forks and comes to an end on either side. -/
def forkNet : Net := .ofScript "fork" [.addPlace ⟨"fork", 1, ∅⟩, .createPlace "left",
  .createPlace "right", .createPlace "west", .createPlace "east", .createTransition "turnLeft",
  .createTransition "turnRight", .createTransition "goWest", .createTransition "goEast",
  .createFlow "fork" "turnLeft" 1, .createFlow "turnLeft" "left" 1,
  .createFlow "fork" "turnRight" 1, .createFlow "turnRight" "right" 1,
  .createFlow "left" "goWest" 1, .createFlow "goWest" "west" 1,
  .createFlow "right" "goEast" 1, .createFlow "goEast" "east" 1]

/-- One order comes to the end in the west before the other end, another order after it. -/
theorem order_irrelevant_forkNet : ∃ g g' n n',
    buildWithin 6 { (default : AnalysisConfig) with explorationOrder := .breadthFirst } forkNet = .ok g ∧
    buildWithin 6 { (default : AnalysisConfig) with explorationOrder := .depthFirst } forkNet = .ok g' ∧
    g.nodes.get? ⟨3⟩ = some n ∧ g'.nodes.get? ⟨3⟩ = some n' ∧ n.marking ≠ n'.marking ∧
    ∃ f, Renumbers f g g' := by
  have hfork : ∃ g g' n n',
      buildWithin 6 { (default : AnalysisConfig) with explorationOrder := .breadthFirst } forkNet = .ok g ∧
      buildWithin 6 { (default : AnalysisConfig) with explorationOrder := .depthFirst } forkNet = .ok g' ∧
      g.nodes.get? ⟨3⟩ = some n ∧ g'.nodes.get? ⟨3⟩ = some n' ∧
      n.marking = .ofCounts [0, 0, 0, 1, 0] ∧ n'.marking = .ofCounts [0, 0, 0, 0, 1] ∧
      g.hasOmega = false :=
    ⟨_, _, _, _, rfl, rfl, rfl, rfl, rfl, rfl, rfl⟩
  obtain ⟨g, g', n, n', hg, hg', hn, hn', hm, hm', homega⟩ := hfork
  obtain ⟨-, -, -, -, hfinite⟩ := order_irrelevant hg hg'
  obtain ⟨-, -, hf⟩ := hfinite homega
  refine ⟨g, g', n, n', hg, hg', hn, hn', ?_, hf⟩
  rw [hm, hm']
  decide

end CoverabilityGraph

end PetriNets
