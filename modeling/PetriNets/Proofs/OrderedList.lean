import Mathlib.Data.List.Perm.Basic
import PetriNets.OrderedList

/-!
# Ordered lists as sets

For a linear order, insertion keeps a list ascending and adds one item. An ascending list is determined
by what it contains (`Ascending.eq_of_mem_iff`), so the order of the insertions cannot be seen.
-/

namespace PetriNets

variable {α : Type} {cmp : α → α → Ordering} {a b : α} {xs ys : List α}

/-- Every item is less than all that follow it. -/
def Ascending (cmp : α → α → Ordering) (xs : List α) : Prop := xs.Pairwise fun a b => cmp a b = .lt

section Members

variable [Std.LawfulEqCmp cmp]

theorem mem_insertOrdered_iff : b ∈ insertOrdered cmp a xs ↔ b = a ∨ b ∈ xs := by
  induction xs with
  | nil => simp [insertOrdered]
  | cons x xs ih =>
    simp only [insertOrdered]
    split
    · exact List.mem_cons
    · next heq =>
      obtain rfl := Std.LawfulEqCmp.eq_of_compare heq
      simp
    · simp only [List.mem_cons, ih]
      exact or_left_comm

/-- Inserting the items of one list into another. -/
theorem mem_foldl_insertOrdered_iff : a ∈ ys.foldl (fun xs y => insertOrdered cmp y xs) xs ↔
    a ∈ xs ∨ a ∈ ys := by
  induction ys generalizing xs with
  | nil => simp
  | cons y ys ih =>
    rw [List.foldl_cons, ih, mem_insertOrdered_iff, List.mem_cons, or_assoc]
    exact or_left_comm

end Members

namespace Ascending

variable [Std.TransCmp cmp]

theorem nodup (h : Ascending cmp xs) : xs.Nodup := by
  refine h.imp fun {a b} hlt heq => ?_
  subst heq
  exact Std.OrientedCmp.not_lt_of_lt hlt hlt

/-- There is one ascending list of given items. -/
theorem eq_of_mem_iff (hx : Ascending cmp xs) (hy : Ascending cmp ys)
    (h : ∀ a, a ∈ xs ↔ a ∈ ys) : xs = ys := by
  have hperm : xs.Perm ys := (List.perm_ext_iff_of_nodup hx.nodup hy.nodup).2 h
  refine hperm.eq_of_pairwise (fun a b _ _ hab hba => ?_) hx hy
  exact absurd hab (Std.OrientedCmp.not_lt_of_lt hba)

variable [Std.LawfulEqCmp cmp]

theorem insertOrdered (h : Ascending cmp xs) : Ascending cmp (insertOrdered cmp a xs) := by
  induction xs with
  | nil => exact List.pairwise_singleton _ a
  | cons x xs ih =>
    obtain ⟨hx, hxs⟩ := List.pairwise_cons.1 h
    simp only [PetriNets.insertOrdered]
    split
    · next hlt =>
      refine List.pairwise_cons.2 ⟨fun y hy => ?_, h⟩
      rcases List.mem_cons.1 hy with rfl | hy
      · exact hlt
      · exact Std.TransCmp.lt_trans hlt (hx y hy)
    · exact h
    · next hgt =>
      refine List.pairwise_cons.2 ⟨fun y hy => ?_, ih hxs⟩
      rcases mem_insertOrdered_iff.1 hy with rfl | hy
      · exact Std.OrientedCmp.gt_iff_lt.1 hgt
      · exact hx y hy

theorem foldl_insertOrdered (h : Ascending cmp xs) :
    Ascending cmp (ys.foldl (fun xs y => PetriNets.insertOrdered cmp y xs) xs) := by
  induction ys generalizing xs with
  | nil => exact h
  | cons y ys ih => exact ih h.insertOrdered

end Ascending

end PetriNets
