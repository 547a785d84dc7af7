import PetriNets.Proofs.FiringSequence
import PetriNets.Proofs.Coverability.Acceleration
import PetriNets.Proofs.Greatest

/-!
# Pumping

A finite marking approximates one with `ω` if it agrees with it where that is finite and holds at least
`k` tokens where it is `ω`. One marking approaches another if from every approximation of the first
that is good enough some firing sequence leads to an approximation of the second that is as good as
wanted. Firing approaches what it gives, and if the way from one marking to another that covers it
strictly can be gone at all, then it can be gone again and again, which approaches the acceleration
of the second one over the first one (`Approaches.accelerateOver`). How the way itself came about, and
whether there was acceleration on it, does not matter.
-/

namespace PetriNets

/-! ## Approximations -/

/-- A count approximates one that may be `ω`. -/
def Token.Approximates (k : Nat) : Token → Token → Prop
  | .finite n, t => t = .finite n
  | .omega, t => ∃ c, k ≤ c ∧ t = .finite c

/-- A marking approximates one that may hold `ω`, on every place. -/
def Marking.Approximates (k : Nat) (m l : Marking) : Prop :=
  l.size = m.size ∧ ∀ p : PlaceId, p.index < m.size → (m.count p).Approximates k (l.count p)

namespace Token

variable {s t u v : Token} {j k l w : Nat}

theorem Approximates.mono (hkl : k ≤ l) (h : t.Approximates l u) : t.Approximates k u := by
  cases t with
  | finite n => exact h
  | omega =>
    obtain ⟨c, hc, rfl⟩ := h
    exact ⟨c, hkl.trans hc, rfl⟩

/-- An approximation covers what the count covers, if it is good enough. -/
theorem covers_of_approximates (h : t.Approximates k u) (ht : t.covers w = true) (hw : w ≤ k) :
    u.covers w = true := by
  cases t with
  | finite n =>
    obtain rfl : u = finite n := h
    exact ht
  | omega =>
    obtain ⟨c, hc, rfl⟩ := h
    exact decide_eq_true (hw.trans hc)

theorem approximates_fired {x : Nat} (h : t.Approximates l u) (hl : k + w ≤ l) :
    ((t.minus w).plus x).Approximates k ((u.minus w).plus x) := by
  cases t with
  | finite n =>
    obtain rfl : u = finite n := h
    rfl
  | omega =>
    obtain ⟨c, hc, rfl⟩ := h
    exact ⟨c - w + x, by omega, rfl⟩

/-- The tokens that the second count holds more than the first one, where both are finite. -/
def surplus : Token → Token → Nat
  | finite m, finite n => n - m
  | _, _ => 0

/-- The count itself, with `ω` replaced. -/
def orElse : Token → Token → Token
  | finite n, _ => finite n
  | omega, t => t

theorem approximates_orElse (hst : s ≤ t) (hkl : k ≤ l) (h : (t.plus w).Approximates l u) :
    s.Approximates k (s.orElse u) := by
  cases s with
  | finite m => rfl
  | omega =>
    obtain rfl : t = omega := le_antisymm le_omega hst
    exact h.mono hkl

/-- What approximates a greater count well enough is what approximates the smaller one and a
surplus. -/
theorem orElse_plus_surplus (hst : s ≤ t) (hbound : ∀ m, s = finite m → m ≤ l)
    (h : (t.plus w).Approximates l u) : (s.orElse u).plus (s.surplus u) = u := by
  cases s with
  | omega => cases u <;> rfl
  | finite m =>
    cases t with
    | finite n =>
      obtain rfl : u = finite (n + w) := h
      have hmn : m ≤ n := finite_le_finite.1 hst
      simp only [orElse, surplus, plus, finite.injEq]
      omega
    | omega =>
      obtain ⟨c, hc, rfl⟩ := h
      have hm := hbound m rfl
      simp only [orElse, surplus, plus, finite.injEq]
      omega

/-- One more turn adds the surplus once more. -/
theorem approximates_turn (hst : s ≤ t) (hu : (t.plus (j * s.surplus t)).Approximates l u)
    (hv : t.Approximates k v) :
    (t.plus ((j + 1) * s.surplus t)).Approximates k (v.plus (s.surplus u)) := by
  cases t with
  | omega =>
    obtain ⟨c, hc, rfl⟩ := hv
    exact ⟨_, le_trans hc (Nat.le_add_right _ _), rfl⟩
  | finite n =>
    obtain rfl : v = finite n := hv
    obtain rfl : u = finite (n + j * s.surplus (finite n)) := hu
    cases s with
    | omega => exact absurd hst not_omega_le_finite
    | finite m =>
      have hmn : m ≤ n := finite_le_finite.1 hst
      show finite _ = finite _
      simp only [surplus, finite.injEq, Nat.succ_mul]
      omega

/-- As many turns as the approximation asks for make up for the `ω` of a count that grew. -/
theorem approximates_accelerated (hst : s ≤ t) (h : (t.plus (k * s.surplus t)).Approximates k u) :
    (if s < t then omega else t).Approximates k u := by
  split
  · next hlt =>
    cases t with
    | omega => exact h
    | finite n =>
      cases s with
      | omega => exact absurd hst not_omega_le_finite
      | finite m =>
        obtain rfl : u = finite (n + k * (n - m)) := h
        have hpos : 0 < n - m := Nat.sub_pos_of_lt (finite_lt_finite.1 hlt)
        exact ⟨_, le_trans (Nat.le_mul_of_pos_right k hpos) (Nat.le_add_left _ _), rfl⟩
  · next hlt =>
    obtain rfl : s = t := le_antisymm hst (not_lt_iff_le.1 hlt)
    cases s with
    | omega => exact h
    | finite m =>
      obtain rfl : u = finite (m + k * (m - m)) := h
      show finite _ = finite _
      rw [Nat.sub_self, Nat.mul_zero, Nat.add_zero]

end Token

namespace Marking

variable {m n l : Marking} {k k' : Nat}

/-- Places beyond the end hold nothing in either marking. -/
theorem Approximates.count (h : m.Approximates k l) (p : PlaceId) :
    (m.count p).Approximates k (l.count p) := by
  by_cases hp : p.index < m.size
  · exact h.2 p hp
  · have hge : m.size ≤ p.index := Nat.le_of_not_lt hp
    rw [count_eq_zero_of_le hge, count_eq_zero_of_le (h.1.symm ▸ hge)]
    rfl

/-- A marking without `ω` approximates itself. -/
theorem approximates_self (h : m.hasOmega = false) : m.Approximates k m := by
  refine ⟨rfl, fun p _ => ?_⟩
  obtain ⟨c, hc⟩ := hasOmega_eq_false_iff.1 h p
  rw [hc]
  rfl

/-- The tokens that the second marking holds more than the first one, place by place. -/
def surplus (m n : Marking) (p : PlaceId) : Nat := (m.count p).surplus (n.count p)

end Marking

/-! ## Approaching a marking -/

/-- From every good enough approximation of the first marking some firing sequence leads to an
approximation of the second one that is as good as wanted. -/
def Incidence.Approaches (inc : Incidence) (m m' : Marking) : Prop :=
  ∀ k, ∃ k', ∀ l, m.Approximates k' l → ∃ ts l', inc.Run none l ts l' ∧ m'.Approximates k l'

namespace Incidence.Approaches

variable {inc : Incidence} {cap : Capacity} {l m n : Marking} {t : TransitionId}

theorem refl (inc : Incidence) (m : Marking) : inc.Approaches m m :=
  fun k => ⟨k, fun l hl => ⟨[], l, .nil l, hl⟩⟩

theorem trans (h : inc.Approaches l m) (h' : inc.Approaches m n) : inc.Approaches l n := by
  intro k
  obtain ⟨k₁, h₁⟩ := h' k
  obtain ⟨k₂, h₂⟩ := h k₁
  refine ⟨k₂, fun a ha => ?_⟩
  obtain ⟨ts, b, hts, hb⟩ := h₂ a ha
  obtain ⟨us, c, hus, hc⟩ := h₁ b hb
  exact ⟨ts ++ us, c, hts.append hus, hc⟩

/-- Firing approaches what it gives: where the marking has `ω`, it is enough that the places hold
what the transition takes besides what is wanted in the end. -/
theorem of_step (h : inc.Step cap m t n) : inc.Approaches m n := by
  obtain ⟨a, ha, hfire⟩ := h.unlimited
  obtain ⟨hcov, hs, hc⟩ := Arcs.fire_eq_ok_iff.1 hfire
  obtain ⟨w, hw⟩ := a.pre.exists_weight_le
  intro k
  refine ⟨k + w, fun l hl => ?_⟩
  have hlcov : ∀ p, (l.count p).covers (a.pre.weight p) = true := by
    intro p
    exact Token.covers_of_approximates (hl.count p) (hcov p) ((hw p).trans (Nat.le_add_left w k))
  obtain ⟨l', hfire'⟩ := Arcs.exists_fire hlcov
  obtain ⟨-, hs', hc'⟩ := Arcs.fire_eq_ok_iff.1 hfire'
  refine ⟨[t], l', .single ⟨a, ha, hfire'⟩, hs'.trans (hl.1.trans hs.symm), fun p hp => ?_⟩
  rw [hs] at hp
  rw [hc p hp, hc' p (hl.1.symm ▸ hp)]
  exact Token.approximates_fired (hl.2 p hp) (Nat.add_le_add_left (hw p) k)

/-- Each turn of the way from a marking to one that covers it adds their difference once more. -/
theorem turn (hle : m ≤ n) (h : inc.Approaches m n) (j : Nat) :
    inc.Approaches (n.plus fun p => j * m.surplus n p) (n.plus fun p => (j + 1) * m.surplus n p) := by
  intro k
  obtain ⟨k', hk'⟩ := h k
  refine ⟨k' + Problem.largestCount m, fun l hl => ?_⟩
  have hsize : m.size = n.size := Marking.size_eq_of_le hle
  have hlsize : l.size = n.size := hl.1.trans (Marking.size_plus _)
  have happrox : ∀ p : PlaceId, p.index < n.size →
      ((n.count p).plus (j * m.surplus n p)).Approximates (k' + Problem.largestCount m) (l.count p) := by
    intro p hp
    rw [← Marking.count_plus (d := fun p => j * m.surplus n p) hp]
    exact hl.2 p (by rwa [Marking.size_plus])
  -- the part of `l` that approximates `m`, from which the way can be gone
  let part := Marking.tabulate n.size fun p => (m.count p).orElse (l.count p)
  have hpart : m.Approximates k' part := by
    refine ⟨(Marking.size_tabulate _ _).trans hsize.symm, fun p hp => ?_⟩
    rw [hsize] at hp
    rw [Marking.count_tabulate hp]
    exact Token.approximates_orElse (Marking.count_le_of_le hle p) (Nat.le_add_right _ _)
      (happrox p hp)
  have hl' : part.plus (m.surplus l) = l := by
    have hpsize : (part.plus (m.surplus l)).size = n.size :=
      (Marking.size_plus _).trans (Marking.size_tabulate _ _)
    refine Marking.ext_count (hpsize.trans hlsize.symm) fun p hp => ?_
    rw [hpsize] at hp
    rw [Marking.count_plus (by rwa [Marking.size_tabulate]), Marking.count_tabulate hp]
    refine Token.orElse_plus_surplus (Marking.count_le_of_le hle p) (fun c hc => ?_) (happrox p hp)
    exact (Problem.le_largestCount hc).trans (Nat.le_add_left _ _)
  obtain ⟨ts, l₁, hrun, hl₁⟩ := hk' part hpart
  have hrun' := hrun.plus (m.surplus l)
  rw [hl'] at hrun'
  refine ⟨ts, _, hrun', ?_, fun p hp => ?_⟩
  · rw [Marking.size_plus, Marking.size_plus, hl₁.1]
  · rw [Marking.size_plus] at hp
    rw [Marking.count_plus hp, Marking.count_plus (hl₁.1.symm ▸ hp)]
    exact Token.approximates_turn (Marking.count_le_of_le hle p) (happrox p hp) (hl₁.2 p hp)

theorem turns (hle : m ≤ n) (h : inc.Approaches m n) (j : Nat) :
    inc.Approaches n (n.plus fun p => j * m.surplus n p) := by
  induction j with
  | zero =>
    have hzero : (n.plus fun p => 0 * m.surplus n p) = n := by
      simp only [Nat.zero_mul]
      exact n.plus_zero
    rw [hzero]
    exact refl inc n
  | succ j ih => exact ih.trans (turn hle h j)

/-- If the way from a marking to one that covers it strictly can be gone, the acceleration of the
second one over the first one can be approached. -/
theorem accelerateOver (hlt : m < n) (h : inc.Approaches m n) :
    inc.Approaches n (n.accelerateOver m) := by
  intro k
  obtain ⟨k', hk'⟩ := turns hlt.le h k k
  refine ⟨k', fun l hl => ?_⟩
  obtain ⟨ts, l', hrun, hl'⟩ := hk' l hl
  refine ⟨ts, l', hrun, ?_, fun p hp => ?_⟩
  · rw [hl'.1, Marking.size_plus, Marking.size_accelerateOver]
  · rw [Marking.size_accelerateOver] at hp
    have hp' := hl'.2 p (by rwa [Marking.size_plus])
    rw [Marking.count_plus hp] at hp'
    rw [Marking.count_accelerateOver hlt]
    exact Token.approximates_accelerated (Marking.count_le_of_le hlt.le p) hp'

end Incidence.Approaches

end PetriNets
