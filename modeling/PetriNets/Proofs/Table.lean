import Mathlib.Data.List.Nodup
import Mathlib.Tactic.Common
import PetriNets.Table

/-!
# Reading tables

What a table gives back for an id after each operation, and how its entries are read by id.
-/

namespace PetriNets

/-- A list numbered from zero has an item under the number that is its position. -/
theorem mem_range_zip {α : Type} {xs : List α} {i : Nat} {a : α} :
    (i, a) ∈ (List.range xs.length).zip xs ↔ xs[i]? = some a := by
  rw [List.mem_iff_getElem?]
  constructor
  · rintro ⟨j, hj⟩
    rw [List.getElem?_zip_eq_some] at hj
    obtain ⟨hi, ha⟩ := hj
    rw [List.getElem?_range (List.getElem?_eq_some_iff.1 ha).1, Option.some.injEq] at hi
    obtain rfl : j = i := hi
    exact ha
  · intro h
    refine ⟨i, ?_⟩
    rw [List.getElem?_zip_eq_some, List.getElem?_range (List.getElem?_eq_some_iff.1 h).1]
    exact ⟨rfl, h⟩

theorem Id.mem_upTo_zip {tag : Char} {α : Type} {xs : List α} {i : Id tag} {a : α} :
    (i, a) ∈ (Id.upTo xs.length).zip xs ↔ xs[i.index]? = some a := by
  unfold Id.upTo
  rw [List.zip_map_left, List.mem_map]
  constructor
  · rintro ⟨⟨k, b⟩, hk, hi⟩
    cases hi
    exact mem_range_zip.1 hk
  · intro h
    exact ⟨(i.index, a), mem_range_zip.2 h, rfl⟩

/-- Looking up every number that is in use gives the list back. -/
theorem Id.map_getD_upTo {tag : Char} {α : Type} (xs : List α) (fallback : Id tag → α) :
    (Id.upTo xs.length).map (fun i => (xs[i.index]?).getD (fallback i)) = xs := by
  unfold Id.upTo
  rw [List.map_map]
  refine List.ext_getElem (by simp) fun i hi hi' => ?_
  simp [hi']

theorem Id.pairwise_upTo {tag : Char} (n : Nat) :
    (Id.upTo n : List (Id tag)).Pairwise fun i j => i.index < j.index := by
  unfold Id.upTo
  rw [List.pairwise_map]
  exact List.pairwise_lt_range

theorem Id.nodup_upTo {tag : Char} (n : Nat) : (Id.upTo n : List (Id tag)).Nodup :=
  (Id.pairwise_upTo n).imp fun hlt heq => Nat.ne_of_lt hlt (congrArg Id.index heq)

namespace Table

variable {tag : Char} {α : Type} {t : Table tag α} {i j : Id tag} {a b : α}

theorem map_fst_entries (t : Table tag α) : t.entries.map Prod.fst = t.ids := by
  refine List.map_fst_zip (Nat.le_of_eq ?_)
  rw [length_toList]
  exact Id.length_upTo _

theorem mem_entries : (i, a) ∈ t.entries ↔ t.get? i = some a := by
  unfold entries ids
  rw [← length_toList, Id.mem_upTo_zip, get?_eq]

theorem mem_toList_iff : a ∈ t.toList ↔ ∃ i, t.get? i = some a := by
  rw [List.mem_iff_getElem?]
  constructor
  · rintro ⟨k, hk⟩
    exact ⟨⟨k⟩, by rw [get?_eq]; exact hk⟩
  · rintro ⟨i, hi⟩
    exact ⟨i.index, by rw [← get?_eq]; exact hi⟩

theorem index_lt_of_get? (h : t.get? i = some a) : i.index < t.size := by
  rw [get?_eq] at h
  exact length_toList t ▸ (List.getElem?_eq_some_iff.1 h).1

theorem exists_get?_of_lt (h : i.index < t.size) : ∃ a, t.get? i = some a := by
  rw [get?_eq]
  exact ⟨_, List.getElem?_eq_getElem (length_toList t ▸ h)⟩

theorem mem_ids_iff : i ∈ t.ids ↔ ∃ a, t.get? i = some a := by
  unfold ids
  rw [Id.mem_upTo]
  exact ⟨exists_get?_of_lt, fun ⟨_, ha⟩ => index_lt_of_get? ha⟩

@[simp] theorem get?_empty : (empty : Table tag α).get? i = none := by
  rw [get?_eq, empty, toList_ofList, List.getElem?_nil]

/-- What an id gives that the table has is not changed by taking up one more value. -/
theorem get?_push_of_get? (h : t.get? i = some a) : (t.push b).get? i = some a := by
  have hlt : i.index < t.toList.length := length_toList t ▸ index_lt_of_get? h
  rw [get?_eq, toList_push, List.getElem?_append_left hlt, ← get?_eq]
  exact h

theorem get?_push_nextId : (t.push b).get? t.nextId = some b := by
  rw [get?_eq, toList_push]
  exact List.getElem?_concat_length

/-- What an id gives after a value has been taken up was there or is that value. -/
theorem get?_push_eq_some (h : (t.push b).get? i = some a) :
    t.get? i = some a ∨ i = t.nextId ∧ a = b := by
  rw [get?_eq, toList_push, List.getElem?_append] at h
  split at h
  · exact .inl (by rw [get?_eq]; exact h)
  · next hlt =>
    rw [length_toList] at h hlt
    rw [List.getElem?_singleton] at h
    split at h
    · next hzero =>
      have hi : i.index = t.size := by omega
      refine .inr ⟨?_, (Option.some.inj h).symm⟩
      cases i
      exact congrArg Id.mk hi
    · cases h

@[simp] theorem size_push : (t.push a).size = t.size + 1 := by
  rw [← length_toList, toList_push, List.length_append, length_toList]
  rfl

theorem ids_push : (t.push a).ids = t.ids ++ [t.nextId] := by
  unfold ids Id.upTo
  rw [size_push, List.range_succ, List.map_append]
  rfl

@[simp] theorem size_set : (t.set i a).size = t.size := by
  rw [← length_toList, toList_set, List.length_set, length_toList]

theorem get?_set_self (h : t.get? i = some a) : (t.set i b).get? i = some b := by
  have hlt : i.index < t.toList.length := length_toList t ▸ index_lt_of_get? h
  rw [get?_eq, toList_set, List.getElem?_set_self hlt]

theorem get?_set_of_ne (h : i ≠ j) : (t.set i b).get? j = t.get? j := by
  have hindex : i.index ≠ j.index := fun e => h (by cases i; cases j; exact congrArg Id.mk e)
  rw [get?_eq, toList_set, List.getElem?_set_ne hindex, get?_eq]

end Table

end PetriNets
