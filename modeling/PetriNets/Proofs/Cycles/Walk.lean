import Mathlib.Data.List.Rotate
import PetriNets.Cycles.Basic
import PetriNets.Proofs.TransitionSystem.Built

/-!
# Walks in a transition system

A walk is given by its steps: the states that it leaves, with the labels that it takes. It may be held to
some of the states (`WalkWithin`). Where a walk is closed the steps determine its arcs. Turning a closed walk
leaves it a closed walk, so one through a state can be turned to begin there (`ClosedWalk.exists_walk_from`).
-/

namespace PetriNets

namespace TransitionSystem

/-- A walk along arcs from one state to another. -/
inductive Walk (ts : TransitionSystem) : String → List WalkStep → String → Prop where
  | nil (v : String) : Walk ts v [] v
  | cons {v l w u : String} {steps : List WalkStep} (arc : ts.HasArc v l w)
      (rest : Walk ts w steps u) : Walk ts v ((v, l) :: steps) u

variable {ts : TransitionSystem} {u v w : String} {step : WalkStep} {xs ys steps : List WalkStep}

theorem walk_nil_iff : ts.Walk v [] w ↔ v = w := by
  constructor
  · rintro ⟨⟩
    rfl
  · rintro rfl
    exact .nil v

theorem walk_append_iff : ts.Walk v (xs ++ ys) w ↔ ∃ u, ts.Walk v xs u ∧ ts.Walk u ys w := by
  induction xs generalizing v with
  | nil => simp [walk_nil_iff]
  | cons x xs ih =>
    constructor
    · rintro (_ | ⟨arc, rest⟩)
      obtain ⟨u, hxs, hys⟩ := ih.1 rest
      exact ⟨u, .cons arc hxs, hys⟩
    · rintro ⟨u, _ | ⟨arc, rest⟩, hys⟩
      exact .cons arc (ih.2 ⟨u, rest, hys⟩)

theorem walk_concat_iff :
    ts.Walk v (xs ++ [step]) w ↔ ts.Walk v xs step.1 ∧ ts.HasArc step.1 step.2 w := by
  rw [walk_append_iff]
  constructor
  · rintro ⟨u, hxs, _ | ⟨arc, rest⟩⟩
    obtain rfl := walk_nil_iff.1 rest
    exact ⟨hxs, arc⟩
  · rintro ⟨hxs, arc⟩
    exact ⟨step.1, hxs, .cons arc (.nil w)⟩

/-- A walk that is not empty leaves its first state. -/
theorem Walk.exists_cons (h : ts.Walk v steps w) (hne : steps ≠ []) :
    ∃ l u rest, steps = (v, l) :: rest ∧ ts.HasArc v l u ∧ ts.Walk u rest w := by
  cases h with
  | nil => exact absurd rfl hne
  | cons arc rest => exact ⟨_, _, _, rfl, arc, rest⟩

theorem exists_walk_iff : (∃ steps, ts.Walk v steps w) ↔
    Relation.ReflTransGen (fun v w => ∃ l, ts.HasArc v l w) v w := by
  constructor
  · rintro ⟨steps, h⟩
    induction h with
    | nil v => exact .refl
    | cons arc _ ih => exact .head ⟨_, arc⟩ ih
  · intro h
    induction h with
    | refl => exact ⟨[], .nil v⟩
    | @tail u w _ harc ih =>
      obtain ⟨steps, hsteps⟩ := ih
      obtain ⟨l, harc⟩ := harc
      exact ⟨steps ++ [(u, l)], walk_concat_iff.2 ⟨hsteps, harc⟩⟩

theorem WellFormed.mem_of_walk (h : ts.WellFormed) (hwalk : ts.Walk v steps w)
    (hv : v ∈ ts.stateIds) : w ∈ ts.stateIds := by
  induction hwalk with
  | nil v => exact hv
  | cons arc _ ih => exact ih (h.mem_of_hasArc arc).2

/-- A walk all of whose states are allowed. -/
structure WalkWithin (ts : TransitionSystem) (within : String → Bool) (v : String)
    (steps : List WalkStep) (w : String) : Prop where
  walk : ts.Walk v steps w
  left_mem : ∀ step ∈ steps, within step.1 = true
  end_mem : within w = true

/-- A walk through allowed states that is as short as any. -/
structure ShortestWithin (ts : TransitionSystem) (within : String → Bool) (v : String)
    (steps : List WalkStep) (w : String) : Prop where
  walk : ts.WalkWithin within v steps w
  least : ∀ others, ts.WalkWithin within v others w → steps.length ≤ others.length

section Within

variable {within : String → Bool}

theorem walkWithin_nil_iff : ts.WalkWithin within v [] w ↔ v = w ∧ within w = true := by
  constructor
  · rintro ⟨hwalk, -, hw⟩
    exact ⟨walk_nil_iff.1 hwalk, hw⟩
  · rintro ⟨rfl, hv⟩
    exact ⟨.nil v, nofun, hv⟩

theorem walkWithin_concat_iff : ts.WalkWithin within v (xs ++ [step]) w ↔
    ts.WalkWithin within v xs step.1 ∧ ts.HasArc step.1 step.2 w ∧ within w = true := by
  constructor
  · rintro ⟨hwalk, hleft, hw⟩
    obtain ⟨hxs, harc⟩ := walk_concat_iff.1 hwalk
    obtain ⟨hleft, hlast⟩ := List.forall_mem_append.1 hleft
    exact ⟨⟨hxs, hleft, hlast step List.mem_cons_self⟩, harc, hw⟩
  · rintro ⟨⟨hxs, hleft, hstep⟩, harc, hw⟩
    refine ⟨walk_concat_iff.2 ⟨hxs, harc⟩, List.forall_mem_append.2 ⟨hleft, ?_⟩, hw⟩
    simpa using hstep

end Within

/-! ## Closed walks -/

/-- The steps of a walk that comes back to where it begins, and is not empty. -/
def ClosedWalk (ts : TransitionSystem) (steps : List WalkStep) : Prop :=
  steps ≠ [] ∧ ∃ v, ts.Walk v steps v

/-- The steps of a closed walk through a state that is as short as any. -/
structure SmallestThrough (ts : TransitionSystem) (v : String) (steps : List WalkStep) : Prop where
  closed : ts.ClosedWalk steps
  through : v ∈ steps.map Prod.fst
  least : ∀ others, ts.ClosedWalk others → v ∈ others.map Prod.fst → steps.length ≤ others.length

theorem ClosedWalk.rotate (h : ts.ClosedWalk steps) (n : Nat) : ts.ClosedWalk (steps.rotate n) := by
  obtain ⟨hne, v, hwalk⟩ := h
  refine ⟨by rwa [ne_eq, List.rotate_eq_nil_iff], ?_⟩
  rw [← List.take_append_drop (n % steps.length) steps] at hwalk
  obtain ⟨u, htake, hdrop⟩ := walk_append_iff.1 hwalk
  refine ⟨u, ?_⟩
  rw [List.rotate_eq_drop_append_take_mod]
  exact walk_append_iff.2 ⟨v, hdrop, htake⟩

theorem ClosedWalk.of_isRotated (h : ts.ClosedWalk xs) (hrotated : xs ~r ys) : ts.ClosedWalk ys := by
  obtain ⟨n, rfl⟩ := hrotated
  exact h.rotate n

/-- A closed walk through a state, from this state on. -/
theorem ClosedWalk.exists_walk_from (h : ts.ClosedWalk steps) (hv : v ∈ steps.map Prod.fst) :
    ∃ turned, steps ~r turned ∧ turned ≠ [] ∧ ts.Walk v turned v := by
  obtain ⟨⟨v, l⟩, hstep, rfl⟩ := List.mem_map.1 hv
  obtain ⟨xs, ys, rfl⟩ := List.append_of_mem hstep
  have hrotated : xs ++ (v, l) :: ys ~r (v, l) :: ys ++ xs := List.isRotated_append
  obtain ⟨hne, u, hwalk⟩ := h.of_isRotated hrotated
  obtain ⟨_, _, _, heq, -⟩ := hwalk.exists_cons hne
  cases heq
  exact ⟨_, hrotated, hne, hwalk⟩

theorem Walk.closedWalk (h : ts.Walk v steps v) (hne : steps ≠ []) :
    ts.ClosedWalk steps ∧ v ∈ steps.map Prod.fst := by
  refine ⟨⟨hne, v, h⟩, ?_⟩
  obtain ⟨l, u, rest, rfl, -⟩ := h.exists_cons hne
  exact List.mem_cons_self

/-- From each of its steps a closed walk leads to the state of the next one, which after the last one is
the first one again. -/
theorem ClosedWalk.hasArc_next (h : ts.ClosedWalk steps) {i : Nat} {l : String}
    (hi : steps[i]? = some (v, l)) :
    ∃ w, (steps.map Prod.fst)[(i + 1) % steps.length]? = some w ∧ ts.HasArc v l w := by
  obtain ⟨hne, u, hwalk⟩ := h
  obtain ⟨hlt, hget⟩ := List.getElem?_eq_some_iff.1 hi
  have hsplit : steps.take i ++ (v, l) :: steps.drop (i + 1) = steps := by
    rw [← hget, List.getElem_cons_drop, List.take_append_drop]
  have hlength : (steps.take i).length = i := by
    rw [List.length_take]
    omega
  generalize steps.take i = xs at hsplit hlength
  generalize steps.drop (i + 1) = ys at hsplit
  subst hsplit
  obtain ⟨_, -, rest⟩ := walk_append_iff.1 hwalk
  cases rest with
  | @cons _ _ w _ _ arc rest =>
    refine ⟨w, ?_, arc⟩
    cases rest with
    | nil =>
      -- the last step leads back to where the walk begins
      obtain ⟨l', _, tail, heq, -⟩ := hwalk.exists_cons hne
      rw [show (i + 1) % (xs ++ [(v, l)]).length = 0 by simp [hlength], heq]
      rfl
    | cons arc' rest' =>
      rw [Nat.mod_eq_of_lt (by simp [hlength]), List.getElem?_map,
        List.getElem?_append_right (by omega), hlength, Nat.add_sub_cancel_left]
      rfl

/-- A smallest closed walk through a state, up to where it begins: it is a walk from there back that
is as short as any. -/
theorem exists_smallestThrough_iff {P : List WalkStep → Prop}
    (hP : ∀ xs ys, xs ~r ys → (P xs ↔ P ys)) :
    (∃ steps, ts.SmallestThrough v steps ∧ P steps) ↔
      ∃ steps, ts.Walk v steps v ∧ steps ≠ [] ∧
        (∀ others, ts.Walk v others v → others ≠ [] → steps.length ≤ others.length) ∧ P steps := by
  constructor
  · rintro ⟨steps, ⟨hclosed, hthrough, hleast⟩, hsteps⟩
    obtain ⟨turned, hrotated, hne, hwalk⟩ := hclosed.exists_walk_from hthrough
    refine ⟨turned, hwalk, hne, fun others hothers hothersne => ?_, (hP _ _ hrotated).1 hsteps⟩
    obtain ⟨hothers, hv⟩ := hothers.closedWalk hothersne
    rw [← hrotated.perm.length_eq]
    exact hleast others hothers hv
  · rintro ⟨steps, hwalk, hne, hleast, hsteps⟩
    obtain ⟨hclosed, hthrough⟩ := hwalk.closedWalk hne
    refine ⟨steps, ⟨hclosed, hthrough, fun others hothers hv => ?_⟩, hsteps⟩
    obtain ⟨turned, hrotated, hturned, hwalk⟩ := hothers.exists_walk_from hv
    rw [hrotated.perm.length_eq]
    exact hleast turned hwalk hturned

end TransitionSystem

end PetriNets
