import PetriNets.Proofs.Net.Firing

/-!
# Firing keeps the order of markings

A firing takes the same from a place and gives the same to it in whatever marking it happens, and `ω`
stays `ω`, so two counts that the firing changes compare as they did before (`Token.compare_minus_plus`).
Markings are compared by the signs of their places alone, so what two markings are to each other before
a transition fires in both they are afterwards: one more than the other, equal, or neither
(`Arcs.compare?_of_fire`).
-/

namespace PetriNets

namespace Token

variable {s t : Token} {v w : Nat}

/-- Counts that both have what is taken compare afterwards as they did before. -/
theorem compare_minus_plus (hs : s.covers v = true) (ht : t.covers v = true) :
    compare ((s.minus v).plus w) ((t.minus v).plus w) = compare s t := by
  cases s with
  | omega => cases t <;> rfl
  | finite m =>
    cases t with
    | omega => rfl
    | finite n =>
      have hm : v ≤ m := of_decide_eq_true hs
      have hn : v ≤ n := of_decide_eq_true ht
      show compare (m - v + w) (n - v + w) = compare m n
      simp only [Nat.compare_eq_ite_lt]
      grind

end Token

namespace Marking

variable {l m n m' n' : Marking}

/-- Only the signs of the places count. -/
theorem compare?_congr (hm : m'.size = m.size) (hn : n'.size = n.size)
    (h : ∀ p : PlaceId, p.index < m.size → p.index < n.size →
      compare (m'.count p) (n'.count p) = compare (m.count p) (n.count p)) :
    m'.compare? n' = m.compare? n := by
  unfold compare?
  rw [hm, hn]
  split
  · rfl
  · next hsize =>
    have hsize : m.size = n.size := not_not.1 hsize
    have hsigns : List.zipWith compare m'.tokens n'.tokens = List.zipWith compare m.tokens n.tokens := by
      rw [zipWith_compare_eq hsize, zipWith_compare_eq (by rw [hm, hn, hsize]), hm]
      refine List.map_congr_left fun p hp => ?_
      have hp : p.index < m.size := Id.mem_upTo.1 hp
      exact h p hp (hsize ▸ hp)
    rw [hsigns]

/-- The other way round the sign is the opposite one. -/
theorem compare?_eq_some_swap_iff {o : Ordering} :
    n.compare? m = some o.swap ↔ m.compare? n = some o := by
  cases o with
  | lt => exact compare?_eq_gt_iff.trans compare?_eq_lt_iff.symm
  | eq => exact compare?_eq_eq_iff.trans (eq_comm.trans compare?_eq_eq_iff.symm)
  | gt => exact compare?_eq_lt_iff.trans compare?_eq_gt_iff.symm

end Marking

namespace Arcs

variable {a : Arcs} {cap : Capacity} {m m' n n' : Marking}

/-- Markings in which the same transition fires are to each other afterwards what they were. -/
theorem compare?_of_fire (hm : a.fire cap m = .ok m') (hn : a.fire cap n = .ok n') :
    m'.compare? n' = m.compare? n := by
  obtain ⟨hcov, hsize, hcount⟩ := fire_eq_ok_iff.1 (fire_none_of_fire hm)
  obtain ⟨hcov', hsize', hcount'⟩ := fire_eq_ok_iff.1 (fire_none_of_fire hn)
  refine Marking.compare?_congr hsize hsize' fun p hp hp' => ?_
  rw [hcount p hp, hcount' p hp']
  exact Token.compare_minus_plus (hcov p) (hcov' p)

end Arcs

namespace Net

variable {net : Net} {cap : Capacity} {m m' n n' : Marking} {r : TransitionRef}

theorem compare?_of_fireWithin (hm : net.fireWithin cap m r = .ok m')
    (hn : net.fireWithin cap n r = .ok n') : m'.compare? n' = m.compare? n := by
  obtain ⟨-, t, ht, a, ha, hfire⟩ := fireWithin_eq_ok_iff_resolve.1 hm
  obtain ⟨-, t', ht', a', ha', hfire'⟩ := fireWithin_eq_ok_iff_resolve.1 hn
  obtain rfl := Except.ok.inj (ht.symm.trans ht')
  obtain rfl := Option.some.inj (ha.symm.trans ha')
  exact Arcs.compare?_of_fire hfire hfire'

theorem isEnabled_eq_ok_iff {b : Bool} : net.isEnabled m r = .ok b ↔
    m.size = net.placeCount ∧ ∃ a, net.arcs r = .ok a ∧ a.isEnabled m = b := by
  unfold isEnabled
  simp only [bind_eq_ok_iff, checkMarking_eq_ok_iff]
  constructor
  · rintro ⟨_, hm, a, ha, hb⟩
    exact ⟨hm, a, ha, Except.ok.inj hb⟩
  · rintro ⟨hm, a, ha, rfl⟩
    exact ⟨(), hm, a, ha, rfl⟩

theorem isEnabled_of_le (h : m ≤ n) (hm : net.isEnabled m r = .ok true) :
    net.isEnabled n r = .ok true := by
  obtain ⟨hsize, a, ha, henabled⟩ := isEnabled_eq_ok_iff.1 hm
  exact isEnabled_eq_ok_iff.2 ⟨(Marking.size_eq_of_le h).symm.trans hsize, a, ha,
    Arcs.isEnabled_of_le h henabled⟩

/-- Firing keeps the order of markings exactly. A marking that covers another one enables what that
one enables. Markings in which a transition fires are afterwards what they were to each other: one
covers the other, strictly or not, they are equal, or neither covers the other; so firing never leads
from two markings to one. This order is a partial one. It compares two markings if they have the same
size and no place of one of them holds more than the same place of the other. -/
theorem fire_keeps_order (net : Net) (r : TransitionRef) :
    (∀ m n, n.covers m = true → net.isEnabled m r = .ok true → net.isEnabled n r = .ok true) ∧
    (∀ m n m' n', net.fire m r = .ok m' → net.fire n r = .ok n' →
      m'.compare? n' = m.compare? n ∧ m'.covers n' = m.covers n ∧
        m'.strictlyCovers n' = m.strictlyCovers n ∧ (m' = n' ↔ m = n)) ∧
    (∀ m : Marking, m.covers m = true) ∧
    (∀ m n : Marking, m.covers n = true → n.covers m = true → m = n) ∧
    (∀ l m n : Marking, l.covers m = true → m.covers n = true → l.covers n = true) ∧
    (∀ m n : Marking, (m.compare? n = some .eq ↔ m = n) ∧
      (m.compare? n = some .lt ↔ n.compare? m = some .gt) ∧
      (m.compare? n = some .gt ↔ m.covers n = true ∧ m ≠ n)) ∧
    ∀ m n : Marking, (m.compare? n).isSome = true ↔ m.size = n.size ∧
      ((∀ p, m.count p ≤ n.count p) ∨ ∀ p, n.count p ≤ m.count p) := by
  refine ⟨fun m n h => isEnabled_of_le (Marking.covers_iff.1 h), fun m n m' n' hm hn => ?_,
    fun m => Marking.covers_iff.2 le_rfl, fun m n h h' => ?_, fun l m n h h' => ?_, fun m n => ?_,
    fun m n => ?_⟩
  · have hsame : m'.compare? n' = m.compare? n := compare?_of_fireWithin hm hn
    refine ⟨hsame, ?_, ?_, ?_⟩
    · unfold Marking.covers
      rw [hsame]
    · unfold Marking.strictlyCovers
      rw [hsame]
    · rw [← Marking.compare?_eq_eq_iff, hsame, Marking.compare?_eq_eq_iff]
  · exact le_antisymm (Marking.covers_iff.1 h') (Marking.covers_iff.1 h)
  · exact Marking.covers_iff.2 ((Marking.covers_iff.1 h').trans (Marking.covers_iff.1 h))
  · refine ⟨Marking.compare?_eq_eq_iff, Marking.compare?_eq_some_swap_iff.symm, ?_⟩
    rw [Marking.compare?_eq_gt_iff, Marking.covers_iff, lt_iff_le_and_ne]
    exact and_congr_right fun _ => ne_comm
  · rw [Marking.isSome_compare?_iff]
    constructor
    · rintro (⟨hsize, hle⟩ | ⟨hsize, hle⟩)
      · exact ⟨hsize, .inl hle⟩
      · exact ⟨hsize.symm, .inr hle⟩
    · rintro ⟨hsize, hle | hle⟩
      · exact .inl ⟨hsize, hle⟩
      · exact .inr ⟨hsize.symm, hle⟩

/-- A tap that is never used up, and a tank that holds less: neither marking covers the other one, and
neither does when both tanks have been filled. -/
theorem fire_keeps_order_tankNet :
    tankNet.fire ⟨[.finite 1, .finite 5]⟩ (.name "fill") = .ok ⟨[.finite 1, .finite 7]⟩ ∧
      tankNet.fire ⟨[.omega, .finite 3]⟩ (.name "fill") = .ok ⟨[.omega, .finite 5]⟩ ∧
      Marking.compare? ⟨[.finite 1, .finite 7]⟩ ⟨[.omega, .finite 5]⟩ = none ∧
      Marking.compare? ⟨[.finite 1, .finite 5]⟩ ⟨[.omega, .finite 3]⟩ = none ∧
      Marking.covers ⟨[.omega, .finite 5]⟩ ⟨[.finite 1, .finite 5]⟩ = true ∧
      tankNet.isEnabled ⟨[.omega, .finite 5]⟩ (.number ⟨0⟩) = .ok true := by
  have hfire : tankNet.fire ⟨[.finite 1, .finite 5]⟩ (.name "fill") =
      .ok ⟨[.finite 1, .finite 7]⟩ := by decide
  have hfire' : tankNet.fire ⟨[.omega, .finite 3]⟩ (.name "fill") = .ok ⟨[.omega, .finite 5]⟩ := by
    decide
  have hsame := ((fire_keeps_order tankNet (.name "fill")).2.1 _ _ _ _ hfire hfire').1
  have hcovers : Marking.covers ⟨[.omega, .finite 5]⟩ ⟨[.finite 1, .finite 5]⟩ = true := by decide
  have henabled : tankNet.isEnabled ⟨[.finite 1, .finite 5]⟩ (.number ⟨0⟩) = .ok true := by decide
  refine ⟨hfire, hfire', by decide, hsame.symm.trans (by decide), hcovers, ?_⟩
  exact (fire_keeps_order tankNet (.number ⟨0⟩)).1 _ _ hcovers henabled

end Net

end PetriNets
