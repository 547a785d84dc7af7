import Mathlib.Data.Finset.Card
import Mathlib.Data.List.Induction
import Mathlib.Data.List.Nodup

/-!
# First occurrences

Leaving out of a list what has occurred before gives its distinct items in the order in which each of
them occurs first (`firstOccurrences_eraseDups`). There is only one such list.
-/

namespace PetriNets

variable {α : Type} [DecidableEq α] {xs ys : List α} {a b : α}

theorem nodup_eraseDups {α : Type} [BEq α] [LawfulBEq α] : (xs : List α) → xs.eraseDups.Nodup
  | [] => .nil
  | x :: xs => by
    rw [List.eraseDups_cons, List.nodup_cons, List.mem_eraseDups, List.mem_filter]
    refine ⟨fun h => ?_, nodup_eraseDups _⟩
    rw [beq_self_eq_true] at h
    cases h.2
termination_by xs => xs.length
decreasing_by exact Nat.lt_succ_of_le (List.length_filter_le _ _)

theorem length_le_one_iff {α : Type} {xs : List α} (h : xs.Nodup) :
    xs.length ≤ 1 ↔ ∀ a ∈ xs, ∀ b ∈ xs, a = b := by
  classical
  rw [← List.toFinset_card_of_nodup h, Finset.card_le_one]
  simp

theorem eraseDups_concat (xs : List α) (a : α) :
    (xs ++ [a]).eraseDups = if a ∈ xs then xs.eraseDups else xs.eraseDups ++ [a] := by
  rw [List.eraseDups_append]
  split
  · next h => simp [List.removeAll, h]
  · next h => simp [List.removeAll, h, List.eraseDups_cons]

theorem eraseDups_of_nodup (h : xs.Nodup) : xs.eraseDups = xs := by
  induction xs using List.reverseRecOn with
  | nil => rfl
  | append_singleton xs a ih =>
    obtain ⟨hnodup, -, hdisjoint⟩ := List.nodup_append.1 h
    have hnew : a ∉ xs := fun ha => hdisjoint a ha a List.mem_cons_self rfl
    rw [eraseDups_concat, if_neg hnew, ih hnodup]

/-- The distinct items of the first list in the order in which each of them occurs first. -/
structure FirstOccurrences (xs ys : List α) : Prop where
  nodup : ys.Nodup
  mem_iff : ∀ a, a ∈ ys ↔ a ∈ xs
  ordered : ys.Pairwise fun a b => xs.idxOf a < xs.idxOf b

/-- What is first among the items that pass a test is first among all. -/
theorem idxOf_lt_of_filter {p : α → Bool} (ha : p a = true) (hb : p b = true)
    (h : (xs.filter p).idxOf a < (xs.filter p).idxOf b) : xs.idxOf a < xs.idxOf b := by
  induction xs with
  | nil => exact h
  | cons x xs ih =>
    by_cases hx : p x = true
    · rw [List.filter_cons_of_pos hx] at h
      by_cases hxb : x = b
      · subst hxb
        simp at h
      · by_cases hxa : x = a
        · subst hxa
          simp [List.idxOf_cons_ne _ hxb]
        · rw [List.idxOf_cons_ne _ hxa, List.idxOf_cons_ne _ hxb] at h ⊢
          have hlt := ih (by omega)
          omega
    · rw [List.filter_cons_of_neg hx] at h
      have hxa : x ≠ a := fun e => hx (e ▸ ha)
      have hxb : x ≠ b := fun e => hx (e ▸ hb)
      rw [List.idxOf_cons_ne _ hxa, List.idxOf_cons_ne _ hxb]
      exact Nat.succ_lt_succ (ih h)

theorem pairwise_idxOf_eraseDups (xs : List α) :
    xs.eraseDups.Pairwise fun a b => xs.idxOf a < xs.idxOf b := by
  match xs with
  | [] => exact .nil
  | x :: xs =>
    rw [List.eraseDups_cons]
    have hmem : ∀ a ∈ (xs.filter fun b => !b == x).eraseDups, a ≠ x := by
      intro a ha
      have hfilter := List.mem_filter.1 (List.mem_eraseDups.1 ha)
      simpa using hfilter.2
    refine List.pairwise_cons.2 ⟨fun a ha => ?_, ?_⟩
    · rw [List.idxOf_cons_self, List.idxOf_cons_ne _ (hmem a ha).symm]
      exact Nat.succ_pos _
    · refine (pairwise_idxOf_eraseDups (xs.filter fun b => !b == x)).imp_of_mem ?_
      intro a b ha hb hlt
      have ha' := hmem a ha
      have hb' := hmem b hb
      rw [List.idxOf_cons_ne _ ha'.symm, List.idxOf_cons_ne _ hb'.symm]
      exact Nat.succ_lt_succ (idxOf_lt_of_filter (by simpa using ha') (by simpa using hb') hlt)
termination_by xs.length
decreasing_by exact Nat.lt_succ_of_le (List.length_filter_le _ _)

theorem firstOccurrences_eraseDups (xs : List α) : FirstOccurrences xs xs.eraseDups :=
  ⟨nodup_eraseDups xs, fun _ => List.mem_eraseDups, pairwise_idxOf_eraseDups xs⟩

end PetriNets
