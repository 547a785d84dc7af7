import Mathlib.Data.List.Perm.Subperm
import Mathlib.Logic.Relation
import PetriNets.Graph.BreadthFirst
import PetriNets.Proofs.FirstOccurrences

/-!
# What a breadth-first traversal finds

`Traversal` is the traversal without a bound on the number of its turns, which visits the successors of a
node one after the other.

What has been seen is what is done, followed by the queue (`Traversed`): it is all reachable, and what
is done leads nowhere else. Nothing is seen twice, so in a graph of `size` nodes the queue is empty after
`size` turns (`Traversed.exists_traversal`), and then everything reachable has been seen
(`mem_breadthFirst_iff`).
-/

namespace PetriNets

variable {α : Type} {next : α → List α} {nodes done queue seen : List α} {start v : α}
  {fuel size : Nat}

/-- How far a traversal from `start` has come. -/
structure Traversed (next : α → List α) (start : α) (done queue seen : List α) : Prop where
  seen_eq : seen = done ++ queue
  nodup : seen.Nodup
  mem_start : start ∈ seen
  reached : ∀ v ∈ seen, Relation.ReflTransGen (fun v w => w ∈ next v) start v
  closed : ∀ v ∈ done, ∀ w ∈ next v, w ∈ seen

theorem traversed_start : Traversed next start [] [start] [start] where
  seen_eq := rfl
  nodup := List.nodup_singleton start
  mem_start := List.mem_singleton.2 rfl
  reached := fun _ hv => List.mem_singleton.1 hv ▸ .refl
  closed := nofun

variable [DecidableEq α]

/-- Puts a node that has not been seen at the end of the queue and of what has been seen. -/
def visit (found : List α × List α) (w : α) : List α × List α :=
  if w ∈ found.2 then found else (found.1 ++ [w], found.2 ++ [w])

/-- As long as the queue is not empty, its first node is taken and the successors of this node are visited:
the queue and what has been seen, the number of turns until the end, and what has been seen then. -/
inductive Traversal (next : α → List α) : List α → List α → Nat → List α → Prop where
  | done (seen : List α) : Traversal next [] seen 0 seen
  | turn {v : α} {queue seen found : List α} {k : Nat}
      (rest : Traversal next ((next v).foldl visit (queue, seen)).1
        ((next v).foldl visit (queue, seen)).2 k found) :
      Traversal next (v :: queue) seen (k + 1) found

/-- Visiting nodes one after the other appends those that have not been seen, each once. -/
theorem foldl_visit (queue seen ws : List α) : ws.foldl visit (queue, seen) =
    (queue ++ ws.eraseDups.filter fun w => !seen.contains w,
      seen ++ ws.eraseDups.filter fun w => !seen.contains w) := by
  induction ws using List.reverseRecOn with
  | nil => simp
  | append_singleton ws w ih =>
    rw [List.foldl_append, ih, eraseDups_concat, List.foldl_cons, List.foldl_nil]
    unfold visit
    by_cases hseen : w ∈ seen
    · by_cases hws : w ∈ ws <;> simp [hseen, hws]
    · by_cases hws : w ∈ ws <;> simp [hseen, hws]

/-- What every turn keeps holds in the end, when as many nodes more are done as turns have been made. -/
theorem Traversal.invariant {P : List α → List α → List α → Prop} {found : List α} {k : Nat}
    (h : Traversal next queue seen k found)
    (hturn : ∀ v done queue seen, P done (v :: queue) seen →
      P (done ++ [v]) (queue ++ (next v).eraseDups.filter fun w => !seen.contains w)
        (seen ++ (next v).eraseDups.filter fun w => !seen.contains w))
    (hP : P done queue seen) : ∃ done', P done' [] found ∧ done'.length = done.length + k := by
  induction h generalizing done with
  | done seen => exact ⟨done, hP, rfl⟩
  | @turn v queue seen found k rest ih =>
    rw [foldl_visit] at ih
    obtain ⟨done', hdone', hlength⟩ := ih (hturn v done queue seen hP)
    refine ⟨done', hdone', ?_⟩
    rw [hlength, List.length_append, List.length_singleton]
    omega

/-- One turn. -/
theorem Traversed.turn (h : Traversed next start done (v :: queue) seen) :
    Traversed next start (done ++ [v]) (queue ++ (next v).eraseDups.filter fun w => !seen.contains w)
      (seen ++ (next v).eraseDups.filter fun w => !seen.contains w) := by
  have hv : v ∈ seen := by
    rw [h.seen_eq]
    exact List.mem_append_right _ List.mem_cons_self
  refine ⟨?_, ?_, List.mem_append_left _ h.mem_start, fun w hw => ?_, fun u hu w hw => ?_⟩
  · rw [h.seen_eq]
    simp
  · refine h.nodup.append ((nodup_eraseDups (next v)).filter _) fun w hw hnew => ?_
    have hfresh := (List.mem_filter.1 hnew).2
    simp [hw] at hfresh
  · rcases List.mem_append.1 hw with hw | hw
    · exact h.reached w hw
    · exact (h.reached v hv).tail (List.mem_eraseDups.1 (List.mem_of_mem_filter hw))
  · by_cases hseen : w ∈ seen
    · exact List.mem_append_left _ hseen
    · rcases List.mem_append.1 hu with hu | hu
      · exact absurd (h.closed u hu w hw) hseen
      · rw [List.mem_singleton.1 hu] at hw
        exact List.mem_append_right _ (List.mem_filter.2 ⟨List.mem_eraseDups.2 hw, by simpa using hseen⟩)

/-- Whether or not it comes to its end. -/
theorem Traversed.nodup_from (h : Traversed next start done queue seen) :
    (breadthFirstFrom next fuel queue seen).Nodup := by
  induction fuel generalizing done queue seen with
  | zero => exact h.nodup
  | succ fuel ih =>
    cases queue with
    | nil => exact h.nodup
    | cons v queue => exact ih h.turn

theorem nodup_breadthFirst : (breadthFirst next size start).Nodup :=
  traversed_start.nodup_from

section Exact

omit [DecidableEq α] in
theorem mem_of_reached (hnext : ∀ v ∈ nodes, ∀ w ∈ next v, w ∈ nodes) (hstart : start ∈ nodes)
    (h : Relation.ReflTransGen (fun v w => w ∈ next v) start v) : v ∈ nodes := by
  induction h with
  | refl => exact hstart
  | tail _ hw ih => exact hnext _ ih _ hw

variable (hnext : ∀ v ∈ nodes, ∀ w ∈ next v, w ∈ nodes) (hsize : nodes.length ≤ size)
include hnext hsize

/-- As many turns as there are nodes empty the queue. -/
theorem Traversed.exists_traversal (hstart : start ∈ nodes)
    (h : Traversed next start done queue seen) (hfuel : size ≤ fuel + done.length) :
    ∃ k, Traversal next queue seen k (breadthFirstFrom next fuel queue seen) := by
  have hlength : seen.length ≤ size := by
    have hsub : seen ⊆ nodes := fun v hv => mem_of_reached hnext hstart (h.reached v hv)
    exact Nat.le_trans (h.nodup.subperm hsub).length_le hsize
  rw [h.seen_eq, List.length_append] at hlength
  induction fuel generalizing done queue seen with
  | zero =>
    obtain rfl : queue = [] := List.length_eq_zero_iff.1 (by omega)
    exact ⟨0, .done seen⟩
  | succ fuel ih =>
    cases queue with
    | nil => exact ⟨0, .done seen⟩
    | cons v queue =>
      have hturn := h.turn
      obtain ⟨k, hk⟩ := ih hturn (by rw [List.length_append, List.length_singleton]; omega) (by
        have hsub : seen ++ (next v).eraseDups.filter (fun w => !seen.contains w) ⊆ nodes :=
          fun v hv => mem_of_reached hnext hstart (hturn.reached v hv)
        have hle := Nat.le_trans (hturn.nodup.subperm hsub).length_le hsize
        rwa [hturn.seen_eq, List.length_append] at hle)
      refine ⟨k + 1, .turn ?_⟩
      rw [foldl_visit]
      exact hk

/-- The traversal comes to its end, each node that it finds being taken once. -/
theorem traversal_breadthFirst (hstart : start ∈ nodes) :
    Traversal next [start] [start] (breadthFirst next size start).length
      (breadthFirst next size start) := by
  obtain ⟨k, htraversal⟩ := traversed_start.exists_traversal hnext hsize hstart
    (Nat.le_add_right size 0)
  obtain ⟨done, hdone, hlength⟩ := htraversal.invariant
    (P := Traversed next start) (fun _ _ _ _ h => h.turn) traversed_start
  have hk : (breadthFirst next size start).length = k := by
    show (breadthFirstFrom next size [start] [start]).length = k
    rw [hdone.seen_eq, List.append_nil, hlength, List.length_nil, Nat.zero_add]
  rw [hk]
  exact htraversal

/-- The traversal finds what can be reached, and nothing else. -/
theorem mem_breadthFirst_iff (hstart : start ∈ nodes) : v ∈ breadthFirst next size start ↔
    Relation.ReflTransGen (fun v w => w ∈ next v) start v := by
  obtain ⟨done, h, -⟩ := (traversal_breadthFirst hnext hsize hstart).invariant
    (P := Traversed next start) (fun _ _ _ _ h => h.turn) traversed_start
  refine ⟨fun hv => h.reached v hv, fun hv => ?_⟩
  induction hv with
  | refl => exact h.mem_start
  | @tail u w _ hw ih =>
    have hdone : u ∈ done := by
      rwa [h.seen_eq, List.append_nil] at ih
    exact h.closed u hdone w hw

end Exact

end PetriNets
