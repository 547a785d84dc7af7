import Mathlib.Order.Basic
import Mathlib.Tactic.Common
import PetriNets.Token

/-!
# The order and the arithmetic of token counts

Counts are ordered as `compare` tells, with `ω` on top. `plus` and `minus` are the total forms of
`add?` and `sub?`: what a place holds after tokens have been put there or taken away. Adding keeps
the order, and what is added can be moved past what is taken away and given back.
-/

namespace PetriNets.Token

/-- Counts are ordered as numbers, with `ω` above them all. -/
instance : PartialOrder Token where
  le s t := compare s t ≠ .gt
  lt s t := compare s t = .lt
  le_refl s := by cases s <;> simp [compare, compareOfLessAndEq]
  le_trans s t u := by
    cases s <;> cases t <;> cases u <;> simp [compare, compareOfLessAndEq]
    grind
  lt_iff_le_not_ge s t := by
    cases s <;> cases t <;> simp [compare, compareOfLessAndEq]
    grind
  le_antisymm s t := by
    cases s <;> cases t <;> simp [compare, compareOfLessAndEq]
    grind

instance : DecidableLT Token := fun s t => inferInstanceAs (Decidable (compare s t = .lt))

variable {s t u : Token} {m n w : Nat}

@[simp] theorem finite_le_finite : finite m ≤ finite n ↔ m ≤ n := by
  show compare m n ≠ .gt ↔ m ≤ n
  exact Nat.compare_ne_gt

@[simp] theorem finite_lt_finite : finite m < finite n ↔ m < n := by
  show compare m n = .lt ↔ m < n
  exact Nat.compare_eq_lt

@[simp] theorem le_omega : t ≤ omega := by
  cases t
  · exact nofun
  · exact le_refl _

@[simp] theorem not_omega_le_finite : ¬ omega ≤ finite n := fun h => h rfl

@[simp] theorem finite_lt_omega : finite n < omega := rfl

@[simp] theorem not_omega_lt : ¬ omega < t := not_lt_of_ge le_omega

@[simp] theorem zero_le : zero ≤ t := by
  cases t with
  | finite n => exact finite_le_finite.2 n.zero_le
  | omega => exact le_omega

theorem compare_eq_lt_iff : compare s t = .lt ↔ s < t := Iff.rfl

theorem compare_eq_gt_iff : compare s t = .gt ↔ t < s := by
  cases s <;> cases t <;> simp [compare, compareOfLessAndEq]
  grind

theorem not_lt_iff_le : ¬ s < t ↔ t ≤ s := by
  cases s <;> cases t <;> simp

theorem isOmega_iff : t.isOmega = true ↔ t = omega := by
  cases t <;> simp [isOmega]

/-! ## Adding and taking away -/

/-- The count with tokens added; `ω` stays `ω`. -/
def plus : Token → Nat → Token
  | finite n, w => finite (n + w)
  | omega, _ => omega

/-- The count with tokens taken away, as far as there are any; `ω` stays `ω`. -/
def minus : Token → Nat → Token
  | finite n, w => finite (n - w)
  | omega, _ => omega

@[simp] theorem plus_zero : t.plus 0 = t := by cases t <;> rfl

@[simp] theorem minus_zero : t.minus 0 = t := by cases t <;> rfl

@[simp] theorem zero_minus : zero.minus w = zero := by
  show finite (0 - w) = finite 0
  rw [Nat.zero_sub]

theorem plus_plus (v : Nat) : (t.plus v).plus w = t.plus (v + w) := by
  cases t <;> simp [plus, Nat.add_assoc]

theorem minus_minus (v : Nat) : (t.minus v).minus w = t.minus (v + w) := by
  cases t <;> simp [minus, Nat.sub_add_eq]

@[simp] theorem covers_zero : t.covers 0 = true := by cases t <;> simp [covers]

theorem covers_add (v : Nat) :
    t.covers (v + w) = true ↔ t.covers v = true ∧ (t.minus v).covers w = true := by
  cases t with
  | finite n => simp only [covers, minus, decide_eq_true_eq]; omega
  | omega => simp [covers, minus]

theorem covers_of_le (h : s ≤ t) (hc : s.covers w = true) : t.covers w = true := by
  cases s <;> cases t <;> simp_all [covers]
  omega

theorem sub?_eq_some_iff : t.sub? w = some u ↔ t.covers w = true ∧ u = t.minus w := by
  cases t with
  | finite n => by_cases h : w ≤ n <;> simp [sub?, covers, minus, h, eq_comm]
  | omega => simp [sub?, covers, minus, eq_comm]

theorem sub?_eq_none_iff : t.sub? w = none ↔ t.covers w = false := by
  cases t <;> simp [sub?, covers]

theorem eq_plus_of_add? {cap : Capacity} (h : t.add? cap w = some u) : u = t.plus w := by
  cases t with
  | finite n =>
    simp only [add?] at h
    split at h
    · exact (Option.some.inj h).symm
    · cases h
  | omega => exact (Option.some.inj h).symm

theorem add?_none_eq_plus : t.add? none w = some (t.plus w) := by cases t <;> rfl

/-- Whether the count stays within a capacity; `ω` does. -/
def within (cap : Capacity) : Token → Bool
  | finite n => cap.holds n
  | omega => true

theorem add?_eq_some_iff {cap : Capacity} :
    t.add? cap w = some u ↔ (t.plus w).within cap = true ∧ u = t.plus w := by
  cases t with
  | finite n => by_cases h : cap.holds (n + w) = true <;> simp [add?, within, plus, h, eq_comm]
  | omega => simp [add?, within, plus, eq_comm]

theorem add?_eq_none_iff {cap : Capacity} : t.add? cap w = none ↔ (t.plus w).within cap = false := by
  cases t <;> simp [add?, within, plus]

theorem plus_le_plus (h : s ≤ t) : s.plus w ≤ t.plus w := by
  cases s <;> cases t <;> simp_all [plus]

theorem minus_le_minus (h : s ≤ t) : s.minus w ≤ t.minus w := by
  cases s <;> cases t <;> simp_all [minus]
  omega

theorem covers_plus (d : Nat) (h : t.covers w = true) : (t.plus d).covers w = true := by
  cases t with
  | finite n => simp only [plus, covers, decide_eq_true_eq] at h ⊢; omega
  | omega => rfl

/-- Tokens that are there beforehand are there afterwards. -/
theorem plus_minus_plus (d v : Nat) (h : t.covers w = true) :
    ((t.plus d).minus w).plus v = ((t.minus w).plus v).plus d := by
  cases t with
  | finite n =>
    simp only [covers, decide_eq_true_eq] at h
    simp only [plus, minus, finite.injEq]
    omega
  | omega => rfl

theorem covers_plus_self : (t.plus w).covers w = true := by
  cases t <;> simp [plus, covers]

theorem plus_minus_self : (t.plus w).minus w = t := by
  cases t <;> simp [plus, minus]

theorem minus_plus_self (h : t.covers w = true) : (t.minus w).plus w = t := by
  cases t with
  | finite n => exact congrArg finite (Nat.sub_add_cancel (of_decide_eq_true h))
  | omega => rfl

theorem within_of_within_plus {cap : Capacity} (h : (t.plus w).within cap = true) :
    t.within cap = true := by
  cases t with
  | omega => rfl
  | finite n =>
    cases cap with
    | none => rfl
    | some limit =>
      have hle : n + w ≤ limit := of_decide_eq_true h
      exact decide_eq_true (Nat.le_trans (Nat.le_add_right n w) hle)

theorem within_minus {cap : Capacity} (h : t.within cap = true) : (t.minus w).within cap = true := by
  cases t with
  | omega => rfl
  | finite n =>
    cases cap with
    | none => rfl
    | some limit =>
      have hle : n ≤ limit := of_decide_eq_true h
      exact decide_eq_true (Nat.le_trans (Nat.sub_le n w) hle)

end PetriNets.Token
