import Mathlib.Order.Bounds.Basic
import PetriNets.Proofs.Graph.BreadthFirst

/-!
# The order of a breadth-first traversal

A traversal finds nodes in the order of their distances from where it begins. For this a distance is
noted with each node that is found, one more than that of the node whose successor it is. `ByDistance` says
what is true of these distances: there are ways as long as noted, nodes come in ascending order of their
distances, and no node found is more than one step further away than one that waits. So the successor of a node
that is taken never gets a distance that is less than another one (`ByDistance.turn`), and when all is done,
no way is shorter than the distance noted (`exists_distances`).
-/

namespace PetriNets

variable {α : Type} {next : α → List α} {nodes done queue seen : List α} {start v w : α}
  {fuel size k : Nat} {d : α → Nat}

/-- A node is reached from another one by following successors so many times. -/
inductive ReachedIn (next : α → List α) (start : α) : Nat → α → Prop where
  | zero : ReachedIn next start 0 start
  | succ {k : Nat} {v w : α} (earlier : ReachedIn next start k v) (step : w ∈ next v) :
      ReachedIn next start (k + 1) w

/-- Nodes have been found in the order of these distances. -/
structure ByDistance (next : α → List α) (start : α) (d : α → Nat) (done queue seen : List α) :
    Prop where
  start_eq : d start = 0
  reached : ∀ v ∈ seen, ReachedIn next start (d v) v
  ascending : seen.Pairwise fun v w => d v ≤ d w
  near : ∀ v ∈ queue, ∀ w ∈ seen, d w ≤ d v + 1
  followed : ∀ v ∈ done, ∀ w ∈ next v, d w ≤ d v + 1

theorem byDistance_start : ByDistance next start (fun _ => 0) [] [start] [start] where
  start_eq := rfl
  reached _ hv := List.mem_singleton.1 hv ▸ .zero
  ascending := List.pairwise_singleton _ start
  near _ _ _ _ := Nat.zero_le 1
  followed := nofun

variable [DecidableEq α]

/-- The successors that are new are one step further away than the node that is taken. -/
theorem ByDistance.turn (h : Traversed next start done (v :: queue) seen)
    (hd : ByDistance next start d done (v :: queue) seen) :
    ByDistance next start (fun w => if w ∈ seen then d w else d v + 1) (done ++ [v])
      (queue ++ (next v).eraseDups.filter fun w => !seen.contains w)
      (seen ++ (next v).eraseDups.filter fun w => !seen.contains w) := by
  generalize hnew : ((next v).eraseDups.filter fun w => !seen.contains w) = new
  have hmem : ∀ w ∈ new, w ∈ next v ∧ w ∉ seen := by
    intro w hw
    rw [← hnew, List.mem_filter] at hw
    exact ⟨List.mem_eraseDups.1 hw.1, by simpa using hw.2⟩
  have hold : ∀ w ∈ seen, (if w ∈ seen then d w else d v + 1) = d w := fun w hw => if_pos hw
  have hnext : ∀ w ∈ new, (if w ∈ seen then d w else d v + 1) = d v + 1 :=
    fun w hw => if_neg (hmem w hw).2
  have hv : v ∈ seen := by simp [h.seen_eq]
  have hnear := hd.near v List.mem_cons_self
  -- what waits has been found after the node that is taken
  have hwaiting : ∀ w ∈ queue, w ∈ seen ∧ d v ≤ d w := by
    intro w hw
    have hascending := hd.ascending
    rw [h.seen_eq, List.pairwise_append, List.pairwise_cons] at hascending
    exact ⟨by simp [h.seen_eq, hw], hascending.2.1.1 w hw⟩
  constructor
  case start_eq =>
    rw [hold start h.mem_start]
    exact hd.start_eq
  case reached =>
    intro w hw
    rcases List.mem_append.1 hw with hw | hw
    · rw [hold w hw]
      exact hd.reached w hw
    · rw [hnext w hw]
      exact (hd.reached v hv).succ (hmem w hw).1
  case ascending =>
    rw [List.pairwise_append]
    refine ⟨?_, ?_, ?_⟩
    · apply hd.ascending.imp_of_mem
      intro u w hu hw hle
      rw [hold u hu, hold w hw]
      exact hle
    · rw [List.pairwise_iff_getElem]
      intro i j hi hj _
      rw [hnext _ (List.getElem_mem hi), hnext _ (List.getElem_mem hj)]
    · intro u hu w hw
      rw [hold u hu, hnext w hw]
      exact hnear u hu
  case near =>
    intro u hu w hw
    have hle : d v ≤ if u ∈ seen then d u else d v + 1 := by
      rcases List.mem_append.1 hu with hu | hu
      · rw [hold u (hwaiting u hu).1]
        exact (hwaiting u hu).2
      · rw [hnext u hu]
        omega
    rcases List.mem_append.1 hw with hw | hw
    · rw [hold w hw]
      have hw := hnear w hw
      omega
    · rw [hnext w hw]
      omega
  case followed =>
    intro u hu w hw
    rcases List.mem_append.1 hu with hu | hu
    · have hseen := h.closed u hu w hw
      rw [hold w hseen, hold u (by simp [h.seen_eq, hu])]
      exact hd.followed u hu w hw
    · rw [List.mem_singleton] at hu
      subst hu
      rw [hold u hv]
      by_cases hseen : w ∈ seen
      · rw [hold w hseen]
        exact hnear w hseen
      · rw [if_neg hseen]

omit [DecidableEq α] in
/-- When all is done, no way to a node is shorter than its distance. -/
theorem ByDistance.le_of_reachedIn (h : Traversed next start seen [] seen)
    (hd : ByDistance next start d seen [] seen) (hw : ReachedIn next start k w) :
    w ∈ seen ∧ d w ≤ k := by
  induction hw with
  | zero => exact ⟨h.mem_start, Nat.le_of_eq hd.start_eq⟩
  | @succ k v w _ step ih =>
    obtain ⟨hv, hle⟩ := ih
    have hstep := hd.followed v hv w step
    exact ⟨h.closed v hv w step, by omega⟩

/-- What has been seen stays where it is. -/
theorem exists_breadthFirstFrom_eq_append (next : α → List α) (fuel : Nat) (queue seen : List α) :
    ∃ rest, breadthFirstFrom next fuel queue seen = seen ++ rest := by
  induction fuel generalizing queue seen with
  | zero => exact ⟨[], (List.append_nil seen).symm⟩
  | succ fuel ih =>
    cases queue with
    | nil => exact ⟨[], (List.append_nil seen).symm⟩
    | cons v queue =>
      obtain ⟨rest, hrest⟩ := ih (queue ++ (next v).eraseDups.filter fun w => !seen.contains w)
        (seen ++ (next v).eraseDups.filter fun w => !seen.contains w)
      exact ⟨_, hrest.trans (List.append_assoc _ _ _)⟩

theorem exists_breadthFirst_eq_cons (next : α → List α) (size : Nat) (start : α) :
    ∃ rest, breadthFirst next size start = start :: rest :=
  exists_breadthFirstFrom_eq_append next size [start] [start]

/-- The traversal finds nodes in the order of their distances. -/
theorem exists_distances (hnext : ∀ v ∈ nodes, ∀ w ∈ next v, w ∈ nodes)
    (hsize : nodes.length ≤ size) (hstart : start ∈ nodes) : ∃ d : α → Nat,
    (∀ v ∈ breadthFirst next size start, IsLeast {k | ReachedIn next start k v} (d v)) ∧
      (breadthFirst next size start).Pairwise fun v w => d v ≤ d w := by
  obtain ⟨done, ⟨h, d, hd⟩, -⟩ := (traversal_breadthFirst hnext hsize hstart).invariant
    (P := fun done queue seen => Traversed next start done queue seen ∧
      ∃ d, ByDistance next start d done queue seen)
    (fun _ _ _ _ ⟨h, _, hd⟩ => ⟨h.turn, _, hd.turn h⟩) ⟨traversed_start, _, byDistance_start⟩
  obtain rfl : breadthFirst next size start = done := by rw [h.seen_eq, List.append_nil]
  exact ⟨d, fun v hv => ⟨hd.reached v hv, fun k hk => (hd.le_of_reachedIn h hk).2⟩, hd.ascending⟩

end PetriNets
