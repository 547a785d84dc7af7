import Mathlib.Data.List.Induction
import Mathlib.Data.List.Nodup
import PetriNets.Proofs.Except

/-!
# First faults

Items are added one after the other, and each is judged by the items before it. The first one that is
at fault decides (`firstFault`): a fold that adds items comes to its end if there is none, and fails
with this fault if there is one (`foldlM_eq_firstFault`). Where an item is at fault for what it is or
for a key that has been used, there is no fault if every item is right and all keys are different.
-/

namespace PetriNets

variable {ε α β κ : Type} {fault? : List α → α → Option ε} {earlier xs : List α} {x : α} {e : ε}

/-- The fault of the first item that has one. -/
def firstFault (fault? : List α → α → Option ε) (earlier : List α) : List α → Option ε
  | [] => none
  | x :: rest =>
    match fault? earlier x with
    | some e => some e
    | none => firstFault fault? (earlier ++ [x]) rest

theorem firstFault_concat (earlier xs : List α) (x : α) : firstFault fault? earlier (xs ++ [x]) =
    match firstFault fault? earlier xs with
    | some e => some e
    | none => fault? (earlier ++ xs) x := by
  induction xs generalizing earlier with
  | nil =>
    rw [List.append_nil]
    cases h : fault? earlier x <;> simp [firstFault, h]
  | cons y ys ih =>
    rw [List.cons_append]
    unfold firstFault
    cases fault? earlier y with
    | some e => rfl
    | none => simp [ih]

/-- The item at fault stands where the list is cut so that nothing before it is at fault. -/
theorem firstFault_eq_some_iff : firstFault fault? earlier xs = some e ↔ ∃ before x after,
    xs = before ++ x :: after ∧ firstFault fault? earlier before = none ∧
      fault? (earlier ++ before) x = some e := by
  induction xs generalizing earlier with
  | nil => simp [firstFault]
  | cons y ys ih =>
    unfold firstFault
    cases hy : fault? earlier y with
    | some e' =>
      constructor
      · intro h
        exact ⟨[], y, ys, rfl, rfl, by simpa [hy] using h⟩
      · rintro ⟨before, x, after, hsplit, hnone, hfault⟩
        cases before with
        | nil =>
          obtain ⟨rfl, rfl⟩ := List.cons.inj hsplit
          simpa [hy] using hfault
        | cons z before =>
          obtain ⟨rfl, rfl⟩ := List.cons.inj hsplit
          simp [hy] at hnone
    | none =>
      simp only [ih]
      constructor
      · rintro ⟨before, x, after, rfl, hnone, hfault⟩
        exact ⟨y :: before, x, after, rfl, by simp [hy, hnone], by simpa using hfault⟩
      · rintro ⟨before, x, after, hsplit, hnone, hfault⟩
        cases before with
        | nil =>
          obtain ⟨rfl, rfl⟩ := List.cons.inj hsplit
          simp [hy] at hfault
        | cons z before =>
          obtain ⟨rfl, rfl⟩ := List.cons.inj hsplit
          simp only [hy] at hnone
          exact ⟨before, x, after, rfl, hnone, by simpa using hfault⟩

/-- Items that are right, and whose keys are all different. -/
theorem firstFault_eq_none_iff [DecidableEq κ] {p : α → Prop} {k : α → κ}
    (hfault : ∀ earlier x, fault? earlier x = none ↔ p x ∧ k x ∉ earlier.map k) :
    firstFault fault? [] xs = none ↔ (∀ x ∈ xs, p x) ∧ (xs.map k).Nodup := by
  -- from the end, since an item is judged by those before it
  induction xs using List.reverseRecOn with
  | nil => simp [firstFault]
  | append_singleton xs x ih =>
    rw [firstFault_concat, List.nil_append, List.map_append, List.nodup_append]
    cases hxs : firstFault fault? [] xs with
    | some e =>
      constructor
      · nofun
      · rintro ⟨hall, hnodup, -⟩
        rw [ih.2 ⟨fun y hy => hall y (List.mem_append_left _ hy), hnodup⟩] at hxs
        cases hxs
    | none =>
      obtain ⟨hold, hnodup⟩ := ih.1 hxs
      simp only [hfault]
      constructor
      · rintro ⟨hx, hnew⟩
        refine ⟨fun y hy => ?_, hnodup, List.nodup_singleton _, ?_⟩
        · rcases List.mem_append.1 hy with hy | hy
          · exact hold y hy
          · exact List.mem_singleton.1 hy ▸ hx
        · rintro _ hk _ hl rfl
          exact hnew (List.mem_singleton.1 hl ▸ hk)
      · rintro ⟨hall, -, -, hne⟩
        refine ⟨hall x (List.mem_append_right _ List.mem_cons_self), fun hmem => ?_⟩
        exact hne _ hmem _ List.mem_cons_self rfl

/-- What comes out, unless there is a fault. -/
def unlessFault (fault : Option ε) (b : β) : Except ε β :=
  match fault with
  | some e => .error e
  | none => .ok b

theorem unlessFault_eq_ok_iff {fault : Option ε} {b c : β} :
    unlessFault fault b = .ok c ↔ fault = none ∧ b = c := by
  cases fault <;> simp [unlessFault]

theorem unlessFault_eq_error_iff {fault : Option ε} {b : β} :
    unlessFault fault b = .error e ↔ fault = some e := by
  cases fault <;> simp [unlessFault]

/-- A fold whose steps fail with the fault of the item, as long as there has been none before. -/
theorem foldlM_eq_firstFault {f : β → α → Except ε β} {s : List α → β}
    (hstep : ∀ earlier x, firstFault fault? [] earlier = none →
      f (s earlier) x = unlessFault (fault? earlier x) (s (earlier ++ [x]))) (xs : List α) :
    xs.foldlM f (s []) = unlessFault (firstFault fault? [] xs) (s xs) := by
  induction xs using List.reverseRecOn with
  | nil => rfl
  | append_singleton xs x ih =>
    rw [List.foldlM_append, ih, firstFault_concat, List.nil_append]
    cases hxs : firstFault fault? [] xs with
    | some e => rfl
    | none =>
      show [x].foldlM f (s xs) = _
      rw [List.foldlM_cons, hstep xs x hxs]
      cases fault? xs x <;> rfl

end PetriNets
