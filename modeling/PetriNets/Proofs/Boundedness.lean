import Mathlib.Data.Fintype.Pi
import Mathlib.Data.Set.Finite.Lattice
import Mathlib.Order.Bounds.Basic
import PetriNets.Boundedness
import PetriNets.Proofs.Coverability.Precision
import PetriNets.Proofs.Coverability.Simulation
import PetriNets.Proofs.Coverability.Witnesses

/-!
# The answers about boundedness are right

The graph covers what can be reached and overstates none of it. So the greatest count of a place in
its nodes is the greatest one in reachable markings, and `ω` means that there is none. Without `ω` the
nodes leave room for finitely many markings only; a place with `ω` has infinitely many counts. That
the answer for a whole net looks at the witnesses and not at `ω` makes no difference, since one is
there if and only if the other is.
-/

namespace PetriNets

/-- The numbers of tokens that a place holds in reachable markings. -/
def Net.countsOf (net : Net) (p : PlaceId) : Set Nat := {c | ∃ m ∈ net.reachable, m.count p = .finite c}

theorem Net.countsOf_nonempty (net : Net) (p : PlaceId) : (net.countsOf p).Nonempty := by
  obtain ⟨c, hc⟩ := Marking.hasOmega_eq_false_iff.1 net.hasOmega_initialMarking p
  exact ⟨c, net.initialMarking, ⟨[], rfl⟩, hc⟩

/-- The greatest number of tokens that any place holds in any reachable marking, or zero if there are
no places. -/
def Net.IsLargestCount (net : Net) (bound : Nat) : Prop :=
  net.placeCount = 0 ∧ bound = 0 ∨
    IsGreatest {c | ∃ p : PlaceId, p.index < net.placeCount ∧ c ∈ net.countsOf p} bound

/-- There are only finitely many markings of one size whose counts have one bound. -/
theorem Marking.finite_of_count_le {S : Set Marking} {k b : Nat} (hsize : ∀ m ∈ S, m.size = k)
    (hcount : ∀ m ∈ S, ∀ p, ∃ c ≤ b, m.count p = .finite c) : S.Finite := by
  have htokens : (Token.finite '' {c | c ≤ b}).Finite := (Set.finite_le_nat b).image _
  refine Set.Finite.of_injOn (f := fun m (i : Fin k) => m.count ⟨i⟩) ?_ ?_
    (Set.Finite.pi' fun _ => htokens)
  · intro m hm i
    obtain ⟨c, hc, heq⟩ := hcount m hm ⟨i⟩
    exact ⟨c, hc, heq.symm⟩
  · intro m hm n hn heq
    refine ext_count ((hsize m hm).trans (hsize n hn).symm) fun p hp => ?_
    rw [hsize m hm] at hp
    exact congrFun heq ⟨p.index, hp⟩

namespace CoverabilityGraph

variable {net : Net} {cap : Capacity} {rounds : Nat} {config : AnalysisConfig}
  {g : CoverabilityGraph} {n : Marking} {p : PlaceId} {b c : Nat}

/-! ## One place -/

theorem count_le_placeBound (hn : g.HasMarking n) : n.count p ≤ g.placeBound p := by
  obtain ⟨node, hnode, rfl⟩ := hn
  exact (le_foldl_of_le Token.le_max_left Token.le_max_right _ _).2 _ (List.mem_map_of_mem hnode)

/-- The bound of a place is its count in some node, or nothing. -/
theorem placeBound_eq_or (g : CoverabilityGraph) (p : PlaceId) :
    g.placeBound p = .zero ∨ ∃ n, g.HasMarking n ∧ n.count p = g.placeBound p := by
  refine (foldl_eq_or_mem Token.max_eq_or _ _).imp_right fun hmem => ?_
  obtain ⟨node, hnode, heq⟩ := List.mem_map.1 hmem
  exact ⟨node.marking, ⟨node, hnode, rfl⟩, heq⟩

theorem placeBound_eq_omega_iff : g.placeBound p = .omega ↔ p ∈ g.unboundedPlaces := by
  rw [mem_unboundedPlaces]
  constructor
  · intro h
    rcases g.placeBound_eq_or p with hzero | ⟨n, hn, heq⟩
    · rw [h] at hzero
      cases hzero
    · exact ⟨n, hn, heq.trans h⟩
  · rintro ⟨n, hn, homega⟩
    exact le_antisymm Token.le_omega (homega ▸ count_le_placeBound hn)

/-- A finite count of a node is reached. -/
theorem mem_countsOf_of_hasMarking (h : exploreWithin cap rounds config net = .ok g)
    (hn : g.HasMarking n) (hc : n.count p = .finite c) : c ∈ net.countsOf p := by
  obtain ⟨ts, m, hts, hm⟩ := exists_reaches_approximating h hn 0
  have hp := hm.count p
  rw [hc] at hp
  exact ⟨m, ⟨ts, hts⟩, hp⟩

/-- Every count that is reached lies below the count of some node. -/
theorem exists_le_of_mem_countsOf (h : exploreWithin cap rounds config net = .ok g)
    (hc : c ∈ net.countsOf p) : ∃ n, g.HasMarking n ∧ .finite c ≤ n.count p := by
  obtain ⟨m, hm, hcount⟩ := hc
  obtain ⟨n, hn, hle⟩ := exists_ge_of_mem_reachable h hm
  exact ⟨n, hn, hcount ▸ Marking.count_le_of_le hle p⟩

/-- The bound of a place, if it has one, is the greatest count that it ever has. -/
theorem isGreatest_of_placeBound_eq (h : exploreWithin cap rounds config net = .ok g)
    (hb : g.placeBound p = .finite b) : IsGreatest (net.countsOf p) b := by
  have hupper : b ∈ upperBounds (net.countsOf p) := by
    intro c hc
    obtain ⟨n, hn, hle⟩ := exists_le_of_mem_countsOf h hc
    have hbound : Token.finite c ≤ .finite b := hb ▸ hle.trans (count_le_placeBound hn)
    exact Token.finite_le_finite.1 hbound
  refine ⟨?_, hupper⟩
  rcases g.placeBound_eq_or p with hzero | ⟨n, hn, heq⟩
  · -- nothing lies below a bound of zero, so that is what the place holds in the beginning
    obtain ⟨c, hc⟩ := net.countsOf_nonempty p
    obtain rfl : b = 0 := by
      rw [hb] at hzero
      cases hzero
      rfl
    rwa [Nat.le_zero.1 (hupper hc)] at hc
  · exact mem_countsOf_of_hasMarking h hn (heq.trans hb)

theorem not_bddAbove_of_mem_unboundedPlaces (h : exploreWithin cap rounds config net = .ok g)
    (hp : p ∈ g.unboundedPlaces) : ¬ BddAbove (net.countsOf p) := by
  rintro ⟨b, hb⟩
  obtain ⟨n, hn, homega⟩ := mem_unboundedPlaces.1 hp
  obtain ⟨ts, m, hts, hm⟩ := exists_reaches_approximating h hn (b + 1)
  have hcount := hm.count p
  rw [homega] at hcount
  obtain ⟨c, hc, hmc⟩ := hcount
  exact absurd (hb ⟨m, ⟨ts, hts⟩, hmc⟩) (Nat.not_le_of_lt hc)

/-- The unbounded places of the graph are those whose counts have no upper bound. -/
theorem mem_unboundedPlaces_iff (h : exploreWithin cap rounds config net = .ok g) :
    p ∈ g.unboundedPlaces ↔ ¬ BddAbove (net.countsOf p) := by
  refine ⟨not_bddAbove_of_mem_unboundedPlaces h, fun hbdd => ?_⟩
  rw [← placeBound_eq_omega_iff]
  cases hb : g.placeBound p with
  | omega => rfl
  | finite b => exact absurd ⟨b, (isGreatest_of_placeBound_eq h hb).2⟩ hbdd

theorem placeBound_eq_finite_iff (h : exploreWithin cap rounds config net = .ok g) :
    g.placeBound p = .finite b ↔ IsGreatest (net.countsOf p) b := by
  refine ⟨isGreatest_of_placeBound_eq h, fun hb => ?_⟩
  cases hp : g.placeBound p with
  | finite c => rw [(isGreatest_of_placeBound_eq h hp).unique hb]
  | omega =>
    rw [placeBound_eq_omega_iff, mem_unboundedPlaces_iff h] at hp
    exact absurd ⟨b, hb.2⟩ hp

/-! ## The whole net -/

theorem le_largestCount (hn : g.HasMarking n) (hc : n.count p = .finite c) : c ≤ g.largestCount := by
  obtain ⟨node, hnode, rfl⟩ := hn
  rcases Marking.mem_filterMap_or_eq_zero hc with hmem | rfl
  · refine (le_foldl_of_le Nat.le_max_left Nat.le_max_right _ 0).2 c (List.mem_flatMap.2 ?_)
    exact ⟨node, hnode, hmem⟩
  · exact Nat.zero_le _

theorem largestCount_eq_or (g : CoverabilityGraph) : g.largestCount = 0 ∨
    ∃ n p, g.HasMarking n ∧ p.index < n.size ∧ n.count p = .finite g.largestCount := by
  refine (foldl_eq_or_mem (fun a b => max_choice a b) _ 0).imp_right fun hmem => ?_
  obtain ⟨node, hnode, hc⟩ := List.mem_flatMap.1 hmem
  obtain ⟨p, hp, hcount⟩ := Marking.mem_filterMap_finite?.1 hc
  exact ⟨node.marking, p, ⟨node, hnode, rfl⟩, hp, hcount⟩

theorem size_of_hasMarking (h : exploreWithin cap rounds config net = .ok g) (hn : g.HasMarking n) :
    n.size = net.placeCount := by
  obtain ⟨ts, m, hts, hm⟩ := exists_reaches_approximating h hn 0
  exact hm.1.symm.trans (Net.size_of_mem_reachable ⟨ts, hts⟩)

/-- Where no node holds `ω`, no count that is reached is greater than the greatest one in a node. -/
theorem le_largestCount_of_mem_countsOf (h : exploreWithin cap rounds config net = .ok g)
    (homega : g.hasOmega = false) (hc : c ∈ net.countsOf p) : c ≤ g.largestCount := by
  obtain ⟨n, hn, hle⟩ := exists_le_of_mem_countsOf h hc
  have hfinite : n.hasOmega = false := hasOmega_eq_false_iff.1 homega n hn
  obtain ⟨b, hb⟩ := Marking.hasOmega_eq_false_iff.1 hfinite p
  rw [hb, Token.finite_le_finite] at hle
  exact hle.trans (le_largestCount hn hb)

theorem isLargestCount_of_hasOmega_eq_false (h : exploreWithin cap rounds config net = .ok g)
    (homega : g.hasOmega = false) : net.IsLargestCount g.largestCount := by
  by_cases hplaces : net.placeCount = 0
  · refine .inl ⟨hplaces, ?_⟩
    rcases g.largestCount_eq_or with hzero | ⟨n, p, hn, hp, -⟩
    · exact hzero
    · rw [size_of_hasMarking h hn, hplaces] at hp
      exact absurd hp (Nat.not_lt_zero _)
  · refine .inr ⟨?_, fun c ⟨p, _, hc⟩ => le_largestCount_of_mem_countsOf h homega hc⟩
    rcases g.largestCount_eq_or with hzero | ⟨n, p, hn, hp, hc⟩
    · obtain ⟨c, hc⟩ := net.countsOf_nonempty ⟨0⟩
      have hle := le_largestCount_of_mem_countsOf h homega hc
      rw [hzero] at hle ⊢
      exact ⟨⟨0⟩, Nat.pos_of_ne_zero hplaces, Nat.le_zero.1 hle ▸ hc⟩
    · exact ⟨p, size_of_hasMarking h hn ▸ hp, mem_countsOf_of_hasMarking h hn hc⟩

theorem finite_reachable_of_hasOmega_eq_false (h : exploreWithin cap rounds config net = .ok g)
    (homega : g.hasOmega = false) : net.reachable.Finite := by
  refine Marking.finite_of_count_le (b := g.largestCount) (fun m hm => Net.size_of_mem_reachable hm)
    fun m hm p => ?_
  obtain ⟨c, hc⟩ := Net.exists_count_of_mem_reachable hm p
  exact ⟨c, le_largestCount_of_mem_countsOf h homega ⟨m, hm, hc⟩, hc⟩

theorem finite_reachable_iff (h : exploreWithin cap rounds config net = .ok g) :
    net.reachable.Finite ↔ g.hasOmega = false := by
  refine ⟨fun hfinite => ?_, finite_reachable_of_hasOmega_eq_false h⟩
  rw [hasOmega_eq_false_iff]
  intro n hn
  rw [Marking.hasOmega_eq_false_iff]
  intro p
  cases hp : n.count p with
  | finite c => exact ⟨c, rfl⟩
  | omega =>
    have hcounts : net.countsOf p ⊆ (fun m => (m.count p).word) '' net.reachable := by
      rintro c ⟨m, hm, hc⟩
      exact ⟨m, hm, congrArg Token.word hc⟩
    have hbdd : BddAbove (net.countsOf p) := ((hfinite.image _).subset hcounts).bddAbove
    have hplace : p ∈ g.unboundedPlaces := mem_unboundedPlaces.2 ⟨n, hn, hp⟩
    exact absurd hbdd (not_bddAbove_of_mem_unboundedPlaces h hplace)

/-! ## The answers -/

theorem boundedness_of_finite (h : exploreWithin cap rounds config net = .ok g)
    (hfinite : net.reachable.Finite) : g.boundedness = .bounded g.largestCount := by
  rw [finite_reachable_iff h, ← witnesses_eq_nil_iff h] at hfinite
  unfold boundedness
  rw [hfinite]
  rfl

theorem boundedness_of_infinite (h : exploreWithin cap rounds config net = .ok g)
    (hinfinite : ¬ net.reachable.Finite) : ∃ w, g.boundedness = .unbounded g.unboundedPlaces w := by
  rw [finite_reachable_iff h, ← witnesses_eq_nil_iff h] at hinfinite
  obtain ⟨w, ws, hw⟩ := List.exists_cons_of_ne_nil hinfinite
  refine ⟨w, ?_⟩
  unfold boundedness
  rw [hw]
  rfl

theorem boundOf_eq_bounded_iff (h : exploreWithin cap rounds config net = .ok g) :
    g.boundOf p = .bounded b ↔ IsGreatest (net.countsOf p) b := by
  rw [← placeBound_eq_finite_iff h]
  unfold boundOf
  cases g.placeBound p <;> simp

theorem boundOf_eq_unbounded_iff (h : exploreWithin cap rounds config net = .ok g) :
    (∃ w, g.boundOf p = .unbounded w) ↔ ¬ ∃ bound, IsGreatest (net.countsOf p) bound := by
  simp only [← boundOf_eq_bounded_iff h]
  cases g.boundOf p <;> simp

end CoverabilityGraph

namespace Net

variable {net : Net} {rounds : Nat} {config : AnalysisConfig} {g : CoverabilityGraph}

/-- Boundedness is decided exactly. The answer for a net is a bound if and only if its reachable
markings are finite in number, and it is the greatest count then; otherwise it lists, in order, the
places that have no bound. The answer for a place is a bound if and only if the place has a greatest
count, and it is this count. That there is no witness means that there is no `ω`. The checks that do
without a number of rounds are those with `enoughRounds`. -/
theorem checkBoundedWithin_exact (h : CoverabilityGraph.buildWithin rounds config net = .ok g) :
    (∃ answer, net.checkBoundedWithin rounds config = .ok answer ∧
      ((∃ bound, answer = .bounded bound) ↔ net.reachable.Finite) ∧
      ((∃ places w, answer = .unbounded places w) ↔ ¬ net.reachable.Finite) ∧
      (∀ bound, answer = .bounded bound → net.IsLargestCount bound) ∧
      ∀ places w, answer = .unbounded places w →
        (places.Pairwise fun p q => p.index < q.index) ∧
        ∀ p, p ∈ places ↔ ¬ BddAbove (net.countsOf p)) ∧
    (∀ place p, net.placeIndex place = .ok p →
      ∃ answer, net.checkPlaceBoundedWithin rounds config place = .ok answer ∧
        (∀ bound, answer = .bounded bound ↔ IsGreatest (net.countsOf p) bound) ∧
        ((∃ w, answer = .unbounded w) ↔ ¬ ∃ bound, IsGreatest (net.countsOf p) bound)) ∧
    (g.witnesses = [] ↔ g.hasOmega = false) := by
  have hnet : net.checkBoundedWithin rounds config = .ok g.boundedness := by
    unfold checkBoundedWithin
    rw [h]
    rfl
  refine ⟨⟨g.boundedness, hnet, ?_⟩, fun place p hp => ⟨g.boundOf p, ?_, ?_, ?_⟩,
    CoverabilityGraph.witnesses_eq_nil_iff h⟩
  · by_cases hfinite : net.reachable.Finite
    · rw [CoverabilityGraph.boundedness_of_finite h hfinite]
      refine ⟨iff_of_true ⟨_, rfl⟩ hfinite, iff_of_false nofun (not_not.2 hfinite), ?_, nofun⟩
      rintro _ ⟨⟩
      have homega := (CoverabilityGraph.finite_reachable_iff h).1 hfinite
      exact CoverabilityGraph.isLargestCount_of_hasOmega_eq_false h homega
    · obtain ⟨w, hw⟩ := CoverabilityGraph.boundedness_of_infinite h hfinite
      rw [hw]
      refine ⟨iff_of_false nofun hfinite, iff_of_true ⟨_, _, rfl⟩ hfinite, nofun, ?_⟩
      rintro _ _ ⟨⟩
      exact ⟨g.pairwise_unboundedPlaces, fun p => CoverabilityGraph.mem_unboundedPlaces_iff h⟩
  · unfold checkPlaceBoundedWithin checkPlaceOn
    rw [hp, h]
    rfl
  · exact fun bound => CoverabilityGraph.boundOf_eq_bounded_iff h
  · exact CoverabilityGraph.boundOf_eq_unbounded_iff h

/-- The tank of the pump has no greatest count, while `on` never holds more than the one token. -/
theorem checkBoundedWithin_exact_pumpNet : ∃ net answer w, pumpNet = .ok net ∧
    net.checkBoundedWithin 4 default = .ok answer ∧ answer.isBounded = false ∧
    net.checkPlaceBoundedWithin 4 default "tank" = .ok (.unbounded w) ∧
    net.checkPlaceBoundedWithin 4 default "on" = .ok (.bounded 1) ∧
    ¬ net.reachable.Finite ∧ (¬ ∃ bound, IsGreatest (net.countsOf ⟨2⟩) bound) ∧
    IsGreatest (net.countsOf ⟨1⟩) 1 := by
  have hpump : ∃ net g answer w, pumpNet = .ok net ∧
      CoverabilityGraph.buildWithin 4 default net = .ok g ∧
      net.checkBoundedWithin 4 default = .ok answer ∧ answer.isBounded = false ∧
      net.checkPlaceBoundedWithin 4 default "tank" = .ok (.unbounded w) ∧
      net.checkPlaceBoundedWithin 4 default "on" = .ok (.bounded 1) ∧
      net.placeIndex "tank" = .ok ⟨2⟩ ∧ net.placeIndex "on" = .ok ⟨1⟩ :=
    ⟨_, _, _, _, rfl, rfl, rfl, rfl, rfl, rfl, rfl, rfl⟩
  obtain ⟨net, g, answer, w, hnet, hg, hanswer, hfalse, htank, hon, hindex, hindex'⟩ := hpump
  refine ⟨net, answer, w, hnet, hanswer, hfalse, htank, hon, ?_⟩
  obtain ⟨⟨answer', hanswer', hbounded, -⟩, hplace, -⟩ := checkBoundedWithin_exact hg
  obtain rfl := Except.ok.inj (hanswer.symm.trans hanswer')
  obtain ⟨_, htank', -, hnone⟩ := hplace "tank" ⟨2⟩ hindex
  obtain rfl := Except.ok.inj (htank.symm.trans htank')
  obtain ⟨_, hon', hgreatest, -⟩ := hplace "on" ⟨1⟩ hindex'
  obtain rfl := Except.ok.inj (hon.symm.trans hon')
  refine ⟨fun hfinite => ?_, hnone.1 ⟨w, rfl⟩, (hgreatest 1).1 rfl⟩
  obtain ⟨bound, rfl⟩ := hbounded.2 hfinite
  cases hfalse

end Net

end PetriNets
