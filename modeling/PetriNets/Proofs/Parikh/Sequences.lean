import Mathlib.Algebra.Ring.Nat
import PetriNets.Proofs.Parikh
import PetriNets.Token

/-!
# Vectors of sequences

The Parikh vector of a sequence is its multiset of labels. What it stores is told by its counts, as it
stores no zero, and these are the counts of the sequence. So two sequences have the same vector if one is
a permutation of the other (`ofSequence_eq_iff`), the labels stored are those that occur
(`mem_labels_ofSequence_iff`), and disjoint vectors are those of sequences without a common label
(`isDisjoint_ofSequence_iff`). The sum of all counts grows by one with each label (`length_add`).

Where a count is kept in a word it might not fit. No count on the way is larger than the number of labels,
nor is any part of their sum, so a sequence whose length fits is counted in words without a fault
(`ofSequenceWithin_eq`, `lengthWithin_ofSequence`).
-/

namespace PetriNets

namespace Capacity

theorem holds_of_le {cap : Capacity} {m n : Nat} (h : cap.holds n = true) (hle : m ≤ n) :
    cap.holds m = true := by
  cases cap with
  | none => rfl
  | some limit =>
    rw [holds_some, decide_eq_true_eq] at h ⊢
    omega

theorem holds_word_of_lt {n : Nat} (h : n < 2 ^ 64) : word.holds n = true := by
  have hle : n ≤ maxWord := Nat.le_pred_of_lt h
  exact decide_eq_true hle

end Capacity

/-- Adding to the value under a key adds as much to the sum of all values. -/
theorem OrderedMap.sum_place (k : String) (n : Nat) (es : List (String × Nat)) :
    ((place k (fun old => old.getD 0 + n) es).map Prod.snd).sum = (es.map Prod.snd).sum + n := by
  induction es with
  | nil => simp [place]
  | cons e es ih =>
    obtain ⟨l, m⟩ := e
    unfold place
    by_cases hless : k < l
    · rw [if_pos hless]
      simp only [List.map_cons, List.sum_cons, Option.getD_none]
      omega
    · rw [if_neg hless]
      by_cases heq : k = l
      · rw [if_pos heq]
        simp only [List.map_cons, List.sum_cons, Option.getD_some]
        omega
      · rw [if_neg heq]
        simp only [List.map_cons, List.sum_cons, ih]
        omega

namespace ParikhVector

variable {xs ys : List String} {l : String} {cap : Capacity}

theorem length_eq_sum (v : ParikhVector) : v.length = (v.entries.map Prod.snd).sum := rfl

theorem length_add (v : ParikhVector) (k : String) (n : Nat) : (v.add k n).length = v.length + n := by
  by_cases hn : n = 0
  · rw [hn, add_zero, Nat.add_zero]
  · unfold add
    rw [if_neg hn, length_eq_sum, length_eq_sum]
    exact OrderedMap.sum_place k n v.entries

theorem length_ofSequence (xs : List String) : (ofSequence xs).length = xs.length := by
  induction xs using List.reverseRecOn with
  | nil => rfl
  | append_singleton xs x ih =>
    rw [ofSequence_concat, length_add, ih, List.length_append, List.length_singleton]

theorem ofSequence_eq_iff : ofSequence xs = ofSequence ys ↔ xs.Perm ys := by
  rw [(reduced_ofSequence xs).eq_iff (reduced_ofSequence ys), List.perm_iff_count]
  simp only [get_ofSequence]

theorem pairwise_labels (v : ParikhVector) : v.labels.Pairwise (· < ·) :=
  List.pairwise_map.2 v.counts.ascending

theorem mem_labels_ofSequence_iff : l ∈ (ofSequence xs).labels ↔ l ∈ xs := by
  rw [(reduced_ofSequence xs).mem_labels_iff, get_ofSequence, List.count_pos_iff]

theorem isDisjoint_ofSequence_iff :
    (ofSequence xs).isDisjoint (ofSequence ys) = true ↔ ¬ ∃ l, l ∈ xs ∧ l ∈ ys := by
  rw [(reduced_ofSequence ys).isDisjoint_iff_not_mem]
  simp only [mem_labels_ofSequence_iff]

/-! ## Counts in words -/

/-- Counts some more occurrences of a label if the count fits. -/
def addWithin (cap : Capacity) (v : ParikhVector) (label : String) (n : Nat) : Option ParikhVector :=
  if cap.holds (v.get label + n) then some (v.add label n) else none

/-- The vector of a sequence of labels if every count on the way fits. -/
def ofSequenceWithin (cap : Capacity) (labels : List String) : Option ParikhVector :=
  labels.foldlM (fun v l => v.addWithin cap l 1) empty

/-- The sum of all counts, one added after the other, if it fits all the time. -/
def lengthWithin (cap : Capacity) (v : ParikhVector) : Option Nat :=
  (v.entries.map Prod.snd).foldlM (fun sum n => if cap.holds (sum + n) then some (sum + n) else none) 0

/-- No label occurs more often than there are labels. -/
theorem ofSequenceWithin_eq (h : cap.holds xs.length = true) :
    ofSequenceWithin cap xs = some (ofSequence xs) := by
  induction xs using List.reverseRecOn with
  | nil => rfl
  | append_singleton xs x ih =>
    rw [List.length_append, List.length_singleton] at h
    have hbefore : ofSequenceWithin cap xs = some (ofSequence xs) :=
      ih (Capacity.holds_of_le h (Nat.le_succ _))
    have hfits : cap.holds ((ofSequence xs).get x + 1) = true := by
      apply Capacity.holds_of_le h
      rw [get_ofSequence]
      exact Nat.succ_le_succ List.count_le_length
    unfold ofSequenceWithin at hbefore ⊢
    rw [List.foldlM_append, hbefore, ofSequence_concat]
    simp [addWithin, hfits]

theorem foldlM_sum_eq (ns : List Nat) (sum : Nat) (h : cap.holds (sum + ns.sum) = true) :
    ns.foldlM (fun sum n => if cap.holds (sum + n) then some (sum + n) else none) sum =
      some (sum + ns.sum) := by
  induction ns generalizing sum with
  | nil => rfl
  | cons n ns ih =>
    rw [List.sum_cons, ← Nat.add_assoc] at h ⊢
    have hfits : cap.holds (sum + n) = true := Capacity.holds_of_le h (Nat.le_add_right _ _)
    rw [List.foldlM_cons, if_pos hfits]
    exact ih (sum + n) h

theorem lengthWithin_ofSequence (h : cap.holds xs.length = true) :
    (ofSequence xs).lengthWithin cap = some xs.length := by
  have hsum : ((ofSequence xs).entries.map Prod.snd).sum = xs.length := length_ofSequence xs
  unfold lengthWithin
  rw [foldlM_sum_eq _ 0 (by rwa [hsum, Nat.zero_add]), hsum, Nat.zero_add]

/-- The vector of a sequence is its multiset of labels: sequences with the same vector are permutations of
each other, each label is counted as often as it occurs, the labels are those that occur, each once and in
ascending order, the length is that of the sequence, and vectors are disjoint, in either order, if the
sequences have no label in common. In words of 64 bits a sequence with less than `2 ^ 64` labels is counted in
the same way. -/
theorem ofSequence_exact (xs ys : List String) :
    (ofSequence xs = ofSequence ys ↔ xs.Perm ys) ∧
    (∀ l, (ofSequence xs).get l = xs.count l) ∧
    (ofSequence xs).length = xs.length ∧
    ((ofSequence xs).labels.Pairwise (· < ·) ∧ ∀ l, l ∈ (ofSequence xs).labels ↔ l ∈ xs) ∧
    ((ofSequence xs).isDisjoint (ofSequence ys) = true ↔ ¬ ∃ l, l ∈ xs ∧ l ∈ ys) ∧
    ((ofSequence ys).isDisjoint (ofSequence xs) = true ↔ ¬ ∃ l, l ∈ xs ∧ l ∈ ys) ∧
    (xs.length < 2 ^ 64 → ofSequenceWithin .word xs = some (ofSequence xs) ∧
      (ofSequence xs).lengthWithin .word = some xs.length) := by
  refine ⟨ofSequence_eq_iff, get_ofSequence xs, length_ofSequence xs,
    ⟨pairwise_labels _, fun l => mem_labels_ofSequence_iff⟩, isDisjoint_ofSequence_iff, ?_, ?_⟩
  · rw [isDisjoint_ofSequence_iff]
    simp only [and_comm]
  · intro hlength
    have hfits := Capacity.holds_word_of_lt hlength
    exact ⟨ofSequenceWithin_eq hfits, lengthWithin_ofSequence hfits⟩

/-- Three turns are counted in words, and in another order as well. -/
theorem ofSequence_exact_turns :
    ["right", "left", "right"].length < 2 ^ 64 ∧
    ofSequenceWithin .word ["right", "left", "right"] = some ⟨.ofList [("left", 1), ("right", 2)]⟩ ∧
    (ofSequence ["right", "left", "right"]).lengthWithin .word = some 3 ∧
    ofSequence ["right", "left", "right"] = ofSequence ["left", "right", "right"] ∧
    (ofSequence ["left", "right", "right"]).isDisjoint (ofSequence ["right", "left", "right"]) = false := by
  have hshort : ["right", "left", "right"].length < 2 ^ 64 := by decide
  have hvector : ofSequence ["right", "left", "right"] = ⟨.ofList [("left", 1), ("right", 2)]⟩ := by
    decide
  obtain ⟨hequal, -, -, -, -, hdisjoint, hwords⟩ :=
    ofSequence_exact ["right", "left", "right"] ["left", "right", "right"]
  obtain ⟨hcounted, hlength⟩ := hwords hshort
  refine ⟨hshort, hvector ▸ hcounted, hlength, hequal.2 (.swap _ _ _), ?_⟩
  rw [← Bool.not_eq_true, hdisjoint]
  exact fun hnone => hnone ⟨"left", by decide, by decide⟩

end ParikhVector

end PetriNets
