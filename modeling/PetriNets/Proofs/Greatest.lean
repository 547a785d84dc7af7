import Mathlib.Order.Nat
import PetriNets.Coverability.Exploration
import PetriNets.Proofs.Marking

/-!
# The greatest of a list

A fold with an operation that gives the greater one of its arguments gives the greatest item of a
list, or what it starts with. Both the greatest number and the greatest count are found so.
-/

namespace PetriNets

section
variable {α : Type} [Preorder α] {f : α → α → α}

/-- What such a fold gives lies above all that it has seen. -/
theorem le_foldl_of_le (hleft : ∀ a b, a ≤ f a b) (hright : ∀ a b, b ≤ f a b) (xs : List α) (a : α) :
    a ≤ xs.foldl f a ∧ ∀ x ∈ xs, x ≤ xs.foldl f a := by
  induction xs generalizing a with
  | nil => exact ⟨le_refl a, nofun⟩
  | cons y ys ih =>
    obtain ⟨hacc, hmem⟩ := ih (f a y)
    refine ⟨(hleft a y).trans hacc, fun x hx => ?_⟩
    rcases List.mem_cons.1 hx with rfl | hx
    · exact (hright a x).trans hacc
    · exact hmem x hx

theorem foldl_eq_or_mem {α : Type} {f : α → α → α} (hf : ∀ a b, f a b = a ∨ f a b = b)
    (xs : List α) (a : α) : xs.foldl f a = a ∨ xs.foldl f a ∈ xs := by
  induction xs generalizing a with
  | nil => exact .inl rfl
  | cons y ys ih =>
    rw [List.foldl_cons]
    rcases ih (f a y) with heq | hmem
    · rw [heq]
      exact (hf a y).imp_right fun h => by rw [h]; exact List.mem_cons_self
    · exact .inr (List.mem_cons_of_mem y hmem)

end

namespace Token

theorem le_max_left (s t : Token) : s ≤ s.max t := by
  unfold Token.max
  split
  · next h => exact le_of_lt (compare_eq_lt_iff.1 h)
  · exact le_refl s

theorem le_max_right (s t : Token) : t ≤ s.max t := by
  unfold Token.max
  split
  · exact le_refl t
  · next h => exact not_lt_iff_le.1 (mt compare_eq_lt_iff.2 h)

theorem max_eq_or (s t : Token) : s.max t = s ∨ s.max t = t := by
  unfold Token.max
  split
  · exact .inr rfl
  · exact .inl rfl

end Token

theorem Token.finite?_eq_some_iff {t : Token} {c : Nat} : t.finite? = some c ↔ t = .finite c := by
  cases t <;> simp [Token.finite?]

theorem Marking.mem_filterMap_finite? {m : Marking} {c : Nat} :
    c ∈ m.tokens.filterMap Token.finite? ↔ ∃ p : PlaceId, p.index < m.size ∧ m.count p = .finite c := by
  simp only [List.mem_filterMap, Token.finite?_eq_some_iff, exists_eq_right]
  constructor
  · intro h
    obtain ⟨i, hi⟩ := List.mem_iff_getElem?.1 h
    have hlt : i < m.size := (List.getElem?_eq_some_iff.1 hi).1
    rw [tokens_getElem? (p := ⟨i⟩) hlt] at hi
    exact ⟨⟨i⟩, hlt, Option.some.inj hi⟩
  · rintro ⟨p, hp, hc⟩
    exact hc ▸ List.mem_of_getElem? (tokens_getElem? hp)

theorem Marking.mem_filterMap_or_eq_zero {m : Marking} {p : PlaceId} {c : Nat}
    (h : m.count p = .finite c) : c ∈ m.tokens.filterMap Token.finite? ∨ c = 0 := by
  by_cases hp : p.index < m.size
  · exact .inl (mem_filterMap_finite?.2 ⟨p, hp, h⟩)
  · rw [count_eq_zero_of_le (Nat.le_of_not_lt hp)] at h
    cases h
    exact .inr rfl

/-- No finite count of a marking is greater than the greatest one. -/
theorem Problem.le_largestCount {m : Marking} {p : PlaceId} {c : Nat} (h : m.count p = .finite c) :
    c ≤ largestCount m := by
  rcases Marking.mem_filterMap_or_eq_zero h with hmem | rfl
  · exact (le_foldl_of_le Nat.le_max_left Nat.le_max_right _ 0).2 c hmem
  · exact Nat.zero_le _

end PetriNets
