import Mathlib.Algebra.BigOperators.Fin
import Mathlib.Tactic.Ring
import PetriNets.Proofs.FiringSequence

/-!
# Effects

The effect of a transition lists the places that one firing changes, with the change, which is what the
arcs give less what they take (`lookup_effect`). This is what happens to a place without `ω`, while `ω`
stays (`changesBy_of_fireWithin`). What a sequence of transitions does to a place depends only on how
often each of them occurs; where the labels of a net are different, these are the numbers of occurrences
of the labels, and the effects add up label by label (`labelEffect_cons`).
-/

namespace PetriNets

/-- A weighted sum grows by the weight of what is counted once more. -/
theorem sum_mul_eq_add {n : Nat} {times times' : Fin n → Nat} (weight : Fin n → Int) (k : Fin n)
    (h : ∀ j, times' j = times j + if j = k then 1 else 0) :
    ∑ j, (times' j : Int) * weight j = weight k + ∑ j, (times j : Int) * weight j := by
  have hterm : ∀ j, (times' j : Int) * weight j =
      (if j = k then weight j else 0) + times j * weight j := by
    intro j
    rw [h j]
    split
    · push_cast
      ring
    · rw [Nat.add_zero, zero_add]
  rw [Finset.sum_congr rfl fun j _ => hterm j, Finset.sum_add_distrib, Finset.sum_ite_eq',
    if_pos (Finset.mem_univ _)]

namespace Token

/-- The first count becomes the second one by a change that is told over the integers: `ω` stays, and
what is finite is as much more, or less. -/
inductive ChangesBy : Token → Int → Token → Prop where
  | finite {n n' : Nat} {d : Int} (h : (n' : Int) = n + d) : ChangesBy (.finite n) d (.finite n')
  | omega (d : Int) : ChangesBy .omega d .omega

namespace ChangesBy

variable {s t u : Token} {d e : Int}

theorem zero (t : Token) : t.ChangesBy 0 t := by
  cases t with
  | finite n => exact .finite (add_zero _).symm
  | omega => exact .omega 0

theorem trans (h : s.ChangesBy d t) (h' : t.ChangesBy e u) : s.ChangesBy (d + e) u := by
  cases h with
  | finite h =>
    cases h' with
    | finite h' => exact .finite (by omega)
  | omega =>
    cases h'
    exact .omega _

/-- A change has one outcome. -/
theorem unique (h : s.ChangesBy d t) (h' : s.ChangesBy d u) : t = u := by
  cases h with
  | finite h =>
    cases h' with
    | finite h' => exact congrArg Token.finite (by omega)
  | omega =>
    cases h'
    rfl

end ChangesBy

end Token

namespace Arcs

variable {a : Arcs} {p : PlaceId} {cap : Capacity} {m m' : Marking}

theorem mem_places : p ∈ a.places ↔ p ∈ a.pre.map Prod.fst ∨ p ∈ a.post.map Prod.fst := by
  unfold places
  simp only [List.mem_map, List.mem_mergeSort, List.mem_eraseDups, List.mem_append]
  constructor
  · rintro ⟨_, ⟨e, he, rfl⟩, rfl⟩
    exact he.imp (fun he => ⟨e, he, rfl⟩) fun he => ⟨e, he, rfl⟩
  · rintro (⟨e, he, rfl⟩ | ⟨e, he, rfl⟩)
    · exact ⟨_, ⟨e, .inl he, rfl⟩, rfl⟩
    · exact ⟨_, ⟨e, .inr he, rfl⟩, rfl⟩

theorem change_eq_zero_of_notMem (h : p ∉ a.places) : a.change p = 0 := by
  rw [mem_places, not_or] at h
  unfold change
  rw [Row.weight_eq_zero_of_notMem h.1, Row.weight_eq_zero_of_notMem h.2]
  rfl

theorem mem_effect_iff {e : PlaceId × Int} : e ∈ a.effect ↔ e.2 = a.change e.1 ∧ e.2 ≠ 0 := by
  unfold effect
  simp only [List.mem_filter, List.mem_map, decide_eq_true_eq]
  constructor
  · rintro ⟨⟨q, -, rfl⟩, hne⟩
    exact ⟨rfl, hne⟩
  · rintro ⟨hchange, hne⟩
    refine ⟨⟨e.1, ?_, by rw [← hchange]⟩, hne⟩
    by_contra hnot
    exact hne (hchange.trans (change_eq_zero_of_notMem hnot))

/-- The effect tells the change of each place; those that it leaves out do not change. -/
theorem lookup_effect (a : Arcs) (p : PlaceId) : (a.effect.lookup p).getD 0 = a.change p := by
  cases hlookup : a.effect.lookup p with
  | none =>
    rw [List.lookup_eq_none_iff] at hlookup
    by_contra hne
    have hmem : (p, a.change p) ∈ a.effect := mem_effect_iff.2 ⟨rfl, Ne.symm hne⟩
    simpa using hlookup _ hmem
  | some d =>
    obtain ⟨xs, ys, heffect, -⟩ := List.lookup_eq_some_iff.1 hlookup
    have hmem : (p, d) ∈ a.effect := heffect ▸ List.mem_append_right _ List.mem_cons_self
    exact (mem_effect_iff.1 hmem).1

/-- Firing changes a place as the arcs tell. -/
theorem changesBy_of_fire (h : a.fire cap m = .ok m') (hp : p.index < m.size) :
    (m.count p).ChangesBy (a.change p) (m'.count p) := by
  obtain ⟨hcovers, -, hcount⟩ := fire_eq_ok_iff.1 (fire_none_of_fire h)
  have hcovered := hcovers p
  rw [hcount p hp]
  cases hm : m.count p with
  | omega => exact .omega _
  | finite n =>
    rw [hm] at hcovered
    have hle : a.pre.weight p ≤ n := of_decide_eq_true hcovered
    refine .finite ?_
    unfold change
    omega

end Arcs

namespace Net

/-- The change that one firing of a transition makes to a place, as its effect tells. -/
def effectOn (net : Net) (t : TransitionId) (p : PlaceId) : Int :=
  (((net.effect (.number t)).toOption.getD []).lookup p).getD 0

/-- What the firings of transitions with the given labels do to a place together. -/
def labelEffect (net : Net) (labels : List String) (p : PlaceId) : Int :=
  ∑ k : Fin net.transitions.length, labels.count (net.transitions.get k).label * net.effectOn ⟨k⟩ p

variable {net : Net} {cap : Capacity} {m m' : Marking} {t : TransitionId} {r : TransitionRef} {p : PlaceId}

theorem effectOn_eq {a : Arcs} (h : net.incidence.arcs.get? t = some a) :
    net.effectOn t p = a.change p := by
  obtain ⟨hlt, rfl⟩ := arcs_get?_eq_some_iff.1 h
  have heffect : net.effect (.number t) = .ok (net.arcsNamed (net.transitionName t)).effect := by
    unfold effect arcs
    rw [resolve_number_eq_ok_iff.2 ⟨hlt, rfl⟩]
    rfl
  unfold effectOn
  rw [heffect]
  exact Arcs.lookup_effect _ p

theorem changesBy_of_fireWithin (h : net.fireWithin cap m r = .ok m') (hp : p.index < net.placeCount) :
    ∃ t, net.resolve r = .ok t ∧ (m.count p).ChangesBy (net.effectOn t p) (m'.count p) := by
  obtain ⟨hsize, t, ht, a, ha, hfire⟩ := fireWithin_eq_ok_iff_resolve.1 h
  refine ⟨t, ht, ?_⟩
  rw [effectOn_eq ha]
  exact Arcs.changesBy_of_fire hfire (hsize ▸ hp)

theorem count_eq_of_fireWithin (h : net.fireWithin cap m (.number t) = .ok m')
    (hp : p.index < net.placeCount) {n n' : Nat} (hn : m.count p = .finite n)
    (hn' : m'.count p = .finite n') : (n' : Int) = n + net.effectOn t p := by
  obtain ⟨u, hu, hchange⟩ := changesBy_of_fireWithin h hp
  obtain ⟨-, rfl⟩ := resolve_number_eq_ok_iff.1 hu
  rw [hn, hn'] at hchange
  cases hchange with
  | finite hsum => exact hsum

@[simp] theorem labelEffect_nil (net : Net) (p : PlaceId) : net.labelEffect [] p = 0 := by
  simp [labelEffect]

/-- Where the labels are different, each of them adds the effect of its transition. -/
theorem labelEffect_cons (hlabels : (net.transitions.map Transition.label).Nodup) {l : String}
    (ht : (net.transitionAt? t).map Transition.label = some l) (labels : List String) :
    net.labelEffect (l :: labels) p = net.effectOn t p + net.labelEffect labels p := by
  obtain ⟨transition, htransition, rfl⟩ := Option.map_eq_some_iff.1 ht
  obtain ⟨hlt, rfl⟩ := List.getElem?_eq_some_iff.1 htransition
  have honly : ∀ k : Fin net.transitions.length,
      net.transitions[t.index].label = (net.transitions.get k).label ↔ k = ⟨t.index, hlt⟩ := by
    intro k
    refine ⟨fun hlabel => Fin.ext ((List.getElem?_inj (by simp) hlabels).1 ?_), fun hk => hk ▸ rfl⟩
    rw [List.getElem?_map, List.getElem?_map, List.getElem?_eq_getElem k.isLt,
      List.getElem?_eq_getElem hlt]
    exact congrArg some hlabel.symm
  -- the one transition of this label counts once more, all others as often as before
  refine sum_mul_eq_add _ ⟨t.index, hlt⟩ fun k => ?_
  rw [List.count_cons]
  congr 1
  exact if_congr (beq_iff_eq.trans (honly k)) rfl rfl

end Net

end PetriNets
