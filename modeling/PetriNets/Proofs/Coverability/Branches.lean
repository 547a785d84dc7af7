import Mathlib.Data.Set.Finite.Lattice
import Mathlib.Logic.Relation
import Mathlib.Order.WellQuasiOrder
import PetriNets.Proofs.Coverability.Acceleration
import PetriNets.Proofs.FiringSequence

/-!
# The branches of the spanning tree

A branch is the markings on the way from the root of an exploration to a node, the last one first. It
`Grows` by a marking that a transition gives at its end and that it does not have yet. This cannot go
on for ever (`not_grows_forever`): by Dickson's lemma an endless branch has an endless ascending
sequence of markings in it, each of which holds an `ω` that the one before does not, as acceleration
has left none that has only grown; but there are only so many places. A branch grows in finitely many
ways, so all that come of one of them are finitely many (`finite_branches`, the lemma of Kőnig).
-/

namespace PetriNets

/-- The count among the natural numbers with a top. -/
def Token.rank : Token → WithTop Nat
  | .finite n => WithTop.some n
  | .omega => ⊤

theorem Token.rank_le_rank_iff {s t : Token} : s.rank ≤ t.rank ↔ s ≤ t := by
  cases s <;> cases t <;> simp [rank]

/-- Dickson's lemma for markings. -/
theorem Marking.exists_ascending {f : Nat → Marking} {n : Nat} (hsize : ∀ i, (f i).size = n) :
    ∃ g : Nat ↪o Nat, ∀ i j, i ≤ j → f (g i) ≤ f (g j) := by
  have hwqo : WellQuasiOrdered fun a b : Fin n → WithTop Nat => a ≤ b := wellQuasiOrdered_le
  obtain ⟨g, hg⟩ := hwqo.exists_monotone_subseq fun i p => ((f i).count ⟨p⟩).rank
  refine ⟨g, fun i j hij => ⟨(hsize _).trans (hsize _).symm, fun p => ?_⟩⟩
  by_cases hp : p.index < n
  · exact Token.rank_le_rank_iff.1 (hg i j hij ⟨p.index, hp⟩)
  · rw [count_eq_zero_of_le (by rw [hsize]; omega)]
    exact Token.zero_le

/-- A trail with these markings, wherever and however it was taken. -/
def Trail.ofMarkings (ms : List Marking) : Trail := ms.map fun m => ⟨⟨0⟩, m, ⟨0⟩⟩

theorem Trail.map_marking_ofMarkings (ms : List Marking) :
    (ofMarkings ms).map TreeStep.marking = ms := by
  unfold ofMarkings
  rw [List.map_map]
  exact List.map_id ms

namespace Incidence

variable {inc : Incidence} {cap : Capacity} {m n : Marking} {b b' : List Marking}

/-- A branch grows by what a transition gives at its end, if this is a marking that it has not had. -/
inductive Grows (inc : Incidence) (cap : Capacity) : List Marking → List Marking → Prop where
  | grow {m fired : Marking} {earlier : List Marking} {t : TransitionId}
      (fire : inc.Step cap m t fired)
      (new : fired.accelerate (.ofMarkings (m :: earlier)) ∉ m :: earlier) :
      Grows inc cap (m :: earlier) (fired.accelerate (.ofMarkings (m :: earlier)) :: m :: earlier)

/-- What has been added to a branch is new, and holds `ω` wherever it has grown over a marking of the
branch that it covers. -/
theorem Grows.exists_cons (h : inc.Grows cap b b') : ∃ last m, b.head? = some last ∧ b' = m :: b ∧
    m.size = last.size ∧ m ∉ b ∧
    ∀ n ∈ b, n < m → ∀ p, n.count p < m.count p → m.count p = .omega := by
  cases h with
  | @grow last fired earlier t fire new =>
    refine ⟨last, _, rfl, rfl, ?_, new, ?_⟩
    · rw [← Marking.size_eq_of_le (Marking.le_accelerate fired _)]
      exact fire.size_eq
    · intro n hn hlt p hp
      rw [← Trail.map_marking_ofMarkings (last :: earlier)] at hn
      obtain ⟨s, hs, rfl⟩ := List.mem_map.1 hn
      exact Marking.eq_omega_of_lt_accelerate hs hlt hp

theorem not_grows_forever (f : Nat → List Marking) : ¬ ∀ i, inc.Grows cap (f i) (f (i + 1)) := by
  intro hgrows
  choose last m hlast hcons hsize hnew homega using fun i => (hgrows i).exists_cons
  have hsizes : ∀ i, (m i).size = (m 0).size := by
    intro i
    induction i with
    | zero => rfl
    | succ i ih =>
      have hhead := hlast (i + 1)
      rw [hcons i, List.head?_cons, Option.some.injEq] at hhead
      rw [hsize, ← hhead, ih]
  have hmem : ∀ i j, i < j → m i ∈ f j := by
    intro i j hij
    induction j with
    | zero => omega
    | succ j ih =>
      rw [hcons j]
      rcases Nat.lt_succ_iff_lt_or_eq.1 hij with hlt | rfl
      · exact List.mem_cons_of_mem _ (ih hlt)
      · exact List.mem_cons_self
  obtain ⟨g, hg⟩ := Marking.exists_ascending hsizes
  have hmono : StrictMono fun i => (m (g i)).omegaCount := by
    refine strictMono_nat_of_lt_succ fun i => ?_
    have hbranch : m (g i) ∈ f (g (i + 1)) := hmem _ _ (g.strictMono (Nat.lt_succ_self i))
    have hle : m (g i) ≤ m (g (i + 1)) := hg i (i + 1) (Nat.le_succ i)
    have hlt : m (g i) < m (g (i + 1)) :=
      lt_of_le_of_ne hle fun heq => hnew (g (i + 1)) (heq ▸ hbranch)
    obtain ⟨-, p, hp⟩ := Marking.lt_iff.1 hlt
    refine Marking.omegaCount_lt hle (fun hbefore => ?_) (homega _ _ hbranch hlt p hp)
    rw [hbefore] at hp
    exact Token.not_omega_lt hp
  have hmany : (m 0).size + 1 ≤ (m (g ((m 0).size + 1))).omegaCount := hmono.le_apply
  have hfew := (m (g ((m 0).size + 1))).omegaCount_le_size
  rw [hsizes (g _)] at hfew
  omega

/-- Growing, read backwards, is well-founded. -/
theorem wellFounded_grows (inc : Incidence) (cap : Capacity) :
    WellFounded fun b' b => inc.Grows cap b b' :=
  wellFounded_iff_isEmpty_descending_chain.2 ⟨fun f => not_grows_forever f.1 f.2⟩

/-- There is at most one way to grow for each transition. -/
theorem finite_grows (inc : Incidence) (cap : Capacity) (b : List Marking) :
    {b' | inc.Grows cap b b'}.Finite := by
  have hfinite : {a : Option (List Marking) | a ∈ inc.arcs.toList.map fun a =>
      (b.head?.bind fun m => (a.fire cap m).toOption).map fun fired =>
        fired.accelerate (.ofMarkings b) :: b}.Finite := List.finite_toSet _
  refine (hfinite.preimage (Option.some_injective _).injOn).subset ?_
  rintro b' ⟨⟨a, ha, hfire⟩, new⟩
  refine List.mem_map.2 ⟨a, Table.mem_toList_iff.2 ⟨_, ha⟩, ?_⟩
  rw [List.head?_cons, Option.bind_some, hfire]
  rfl

/-- All branches that come of one are finitely many. -/
theorem finite_branches (inc : Incidence) (cap : Capacity) (b : List Marking) :
    {b' | Relation.ReflTransGen (inc.Grows cap) b b'}.Finite := by
  induction b using (wellFounded_grows inc cap).induction with
  | _ b ih =>
    have hall : ({b} ∪ ⋃ c ∈ {c | inc.Grows cap b c},
        {b' | Relation.ReflTransGen (inc.Grows cap) c b'}).Finite :=
      (Set.finite_singleton b).union ((finite_grows inc cap b).biUnion ih)
    refine hall.subset fun b' hb' => ?_
    rcases Relation.ReflTransGen.cases_head hb' with rfl | ⟨c, hc, hrest⟩
    · exact .inl rfl
    · exact .inr (Set.mem_biUnion hc hrest)

end Incidence

end PetriNets
