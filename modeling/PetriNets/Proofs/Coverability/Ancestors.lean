import PetriNets.Proofs.Coverability.Structure

/-!
# Acceleration is the least fixpoint

The ancestors of a node are met by following the parents, up to the initial node; their markings are those
of the trail by which the node was found (`Descends.mem_trailVia_iff`), at every moment of an exploration.
A step of acceleration over any of them only raises a marking, and stays below every marking that has
nothing left to accelerate. So in whatever order the ancestors are visited, and however often, the marking
at which nothing changes any more is the least such one (`foldl_accelerateOver_eq`).
-/

namespace PetriNets

namespace Exploration

variable {p : Problem} {x : Exploration} {id i j : NodeId} {node : CoverNode} {t : TransitionId}
  {l m : Marking}

/-- The second node is the one from which the first one was found. -/
def IsParent (x : Exploration) (i j : NodeId) : Prop :=
  ∃ n t, x.nodes.get? i = some n ∧ n.parent? = some (j, t)

/-- The marking of a node or of one of its ancestors in the spanning tree. -/
def IsAncestral (x : Exploration) (i : NodeId) (l : Marking) : Prop :=
  ∃ j n, Relation.ReflTransGen x.IsParent i j ∧ x.nodes.get? j = some n ∧ n.marking = l

theorem isParent_iff (hnode : x.nodes.get? id = some node) :
    x.IsParent id j ↔ ∃ s rest, node.trail = s :: rest ∧ s.source = j := by
  unfold IsParent CoverNode.parent?
  constructor
  · rintro ⟨n, t, hn, hparent⟩
    obtain rfl := Option.some.inj (hnode.symm.trans hn)
    obtain ⟨s, hs, hsource⟩ := Option.map_eq_some_iff.1 hparent
    obtain ⟨rest, htrail⟩ := List.head?_eq_some_iff.1 hs
    exact ⟨s, rest, htrail, congrArg Prod.fst hsource⟩
  · rintro ⟨s, rest, htrail, rfl⟩
    exact ⟨node, s.transition, hnode, by simp [htrail]⟩

/-- The trail to a node goes over the markings of its ancestors. -/
theorem Descends.mem_trailVia_iff (hx : Descends x) (hnode : x.nodes.get? id = some node) :
    (∃ s ∈ node.trailVia id t, s.marking = l) ↔ x.IsAncestral id l := by
  generalize htrail : node.trail = trail
  induction trail generalizing id node t with
  | nil =>
    constructor
    · rintro ⟨s, hs, rfl⟩
      rw [CoverNode.trailVia, htrail, List.mem_singleton] at hs
      exact ⟨id, node, .refl, hnode, congrArg TreeStep.marking hs.symm⟩
    · rintro ⟨j, n, hj, hn, rfl⟩
      refine ⟨_, List.mem_cons_self, ?_⟩
      rcases Relation.ReflTransGen.cases_head hj with rfl | ⟨k, hk, -⟩
      · exact congrArg CoverNode.marking (Option.some.inj (hnode.symm.trans hn))
      · obtain ⟨s, rest, hcons, -⟩ := (isParent_iff hnode).1 hk
        rw [htrail] at hcons
        cases hcons
  | cons s rest ih =>
    -- the parent has the trail that is left, and its own marking stands at the head of the longer one
    rcases hx id node.marking node.trail (found_of_get? hnode) with ⟨-, hnil⟩ |
      ⟨s', rest', hcons, -, ⟨status, hparent⟩, -⟩
    · rw [htrail] at hnil
      cases hnil
    obtain ⟨rfl, rfl⟩ := List.cons.inj (htrail.symm.trans hcons)
    have hstep : x.IsParent id s.source := (isParent_iff hnode).2 ⟨s, rest, htrail, rfl⟩
    have hearlier : (∃ s' ∈ s :: rest, s'.marking = l) ↔ x.IsAncestral s.source l :=
      ih hparent (t := s.transition) rfl
    unfold CoverNode.trailVia
    rw [htrail]
    simp only [List.exists_mem_cons_iff] at hearlier ⊢
    constructor
    · rintro (rfl | hs)
      · exact ⟨id, node, .refl, hnode, rfl⟩
      · obtain ⟨j, n, hj, hn, hl⟩ := hearlier.1 hs
        exact ⟨j, n, hj.head hstep, hn, hl⟩
    · rintro ⟨j, n, hj, hn, rfl⟩
      rcases Relation.ReflTransGen.cases_head hj with rfl | ⟨k, hk, hrest⟩
      · exact .inl (congrArg CoverNode.marking (Option.some.inj (hnode.symm.trans hn)))
      · obtain ⟨s', rest', hcons', rfl⟩ := (isParent_iff hnode).1 hk
        obtain ⟨rfl, -⟩ := List.cons.inj (htrail.symm.trans hcons')
        exact .inr (hearlier.2 ⟨j, n, hrest, hn, rfl⟩)

theorem Arises.descends (h : Arises p x) : Descends x := h.kept (kept_descends p) (descends_start _)

/-- However ancestors are visited one after the other, the marking at which nothing changes any more is
the accelerated one. -/
theorem foldl_accelerateOver_eq {trail : Trail} {visits : List Marking}
    (hvisits : ∀ l ∈ visits, ∃ s ∈ trail, s.marking = l)
    (hstable : ∀ s ∈ trail, (visits.foldl Marking.accelerateOver m).accelerateOver s.marking =
      visits.foldl Marking.accelerateOver m) :
    visits.foldl Marking.accelerateOver m = m.accelerate trail := by
  have hleast := m.isLeast_accelerate trail
  apply le_antisymm
  · obtain ⟨⟨hle, hsettled⟩, -⟩ := hleast
    refine List.foldlRecOn (motive := (· ≤ m.accelerate trail)) visits _ hle ?_
    intro m' hm' l hl
    obtain ⟨s, hs, rfl⟩ := hvisits l hl
    exact Marking.accelerateOver_le hm' (hsettled s hs)
  · refine hleast.2 ⟨?_, fun s hs => Marking.accelerateOver_eq_self_iff.1 (hstable s hs)⟩
    refine List.foldlRecOn (motive := (m ≤ ·)) visits _ (le_refl m) ?_
    intro m' hm' l _
    exact hm'.trans (m'.le_accelerateOver l)

/-- At every moment of an exploration, acceleration at a node comes to its end with one pass more than
there are places at most, and gives the least marking above that has `ω` wherever it grew over an
ancestor that it covers. All that it does is to turn finite counts into `ω`, and any other way of
visiting the ancestors until nothing changes leads to the same marking. -/
theorem accelerate_least_fixpoint (hx : Arises p x) (hnode : x.nodes.get? id = some node)
    (t : TransitionId) (m : Marking) :
    (∃ k ≤ m.size + 1,
      Marking.Passes (node.trailVia id t) k m (m.accelerate (node.trailVia id t))) ∧
    IsLeast {n | m ≤ n ∧ ∀ l, x.IsAncestral id l → n.SettledOver l}
      (m.accelerate (node.trailVia id t)) ∧
    (∀ q, (m.accelerate (node.trailVia id t)).count q = m.count q ∨
      (∃ c, m.count q = .finite c) ∧ (m.accelerate (node.trailVia id t)).count q = .omega) ∧
    ∀ visits : List Marking, (∀ l ∈ visits, x.IsAncestral id l) →
      (∀ l, x.IsAncestral id l → (visits.foldl Marking.accelerateOver m).accelerateOver l =
        visits.foldl Marking.accelerateOver m) →
      visits.foldl Marking.accelerateOver m = m.accelerate (node.trailVia id t) := by
  have hmem : ∀ l, x.IsAncestral id l ↔ ∃ s ∈ node.trailVia id t, s.marking = l :=
    fun _ => (hx.descends.mem_trailVia_iff hnode).symm
  refine ⟨m.exists_passes_accelerate _, ?_, ?_, ?_⟩
  · have hleast := m.isLeast_accelerate (node.trailVia id t)
    simp only [hmem, forall_exists_index, and_imp, forall_apply_eq_imp_iff₂]
    exact hleast
  · intro q
    rcases m.count_accelerate (node.trailVia id t) q with hsame | homega
    · exact .inl hsame
    · cases hq : m.count q with
      | finite c => exact .inr ⟨⟨c, rfl⟩, homega⟩
      | omega => exact .inl homega
  · intro visits hvisits hstable
    refine foldl_accelerateOver_eq (fun l hl => (hmem l).1 (hvisits l hl)) ?_
    intro s hs
    exact hstable s.marking ((hmem _).2 ⟨s, hs, rfl⟩)

/-- A market where a coin buys five chips, and four chips are taken back for a coin. -/
def marketNet : Net := .ofScript "market" [.addPlace ⟨"coin", 1, ∅⟩, .createPlace "chip",
  .createTransition "buy", .createTransition "sell", .createFlow "coin" "buy" 1,
  .createFlow "buy" "chip" 5, .createFlow "chip" "sell" 4, .createFlow "sell" "coin" 1]

/-- A chip is left over. Once there may be any number of chips, the five of before are covered too, and
there may be any number of coins. -/
theorem accelerate_least_fixpoint_marketNet : ∃ x node,
    (marketNet.problem .word default).run 4 = .ok x ∧ x.nodes.get? ⟨1⟩ = some node ∧
    node.marking = .ofCounts [0, 5] ∧
    IsLeast {n : Marking | .ofCounts [1, 1] ≤ n ∧ ∀ l, x.IsAncestral ⟨1⟩ l → n.SettledOver l}
      ⟨[.omega, .omega]⟩ ∧
    ∃ k ≤ 3, Marking.Passes (node.trailVia ⟨1⟩ ⟨1⟩) k (.ofCounts [1, 1]) ⟨[.omega, .omega]⟩ := by
  have hmarket : ∃ x node, (marketNet.problem .word default).run 4 = .ok x ∧
      x.nodes.get? ⟨1⟩ = some node ∧ node.marking = .ofCounts [0, 5] ∧
      (Marking.ofCounts [1, 1]).accelerate (node.trailVia ⟨1⟩ ⟨1⟩) = ⟨[.omega, .omega]⟩ :=
    ⟨_, _, rfl, rfl, rfl, rfl⟩
  obtain ⟨x, node, hrun, hnode, hmarking, haccelerated⟩ := hmarket
  have harises : Arises (marketNet.problem .word default) x := (kept_arises _).run .start hrun
  obtain ⟨hpasses, hleast, -⟩ := accelerate_least_fixpoint harises hnode ⟨1⟩ (.ofCounts [1, 1])
  rw [haccelerated] at hpasses hleast
  exact ⟨x, node, hrun, hnode, hmarking, hleast, hpasses⟩

end Exploration

end PetriNets
