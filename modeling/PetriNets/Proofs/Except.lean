import Mathlib.Tactic.Common

/-!
# Results that may be errors

How a computation with errors comes to its result, so that proofs take it apart step by step.
-/

namespace PetriNets

variable {ε ε' α β : Type}

theorem bind_eq_ok_iff {x : Except ε α} {f : α → Except ε β} {b : β} :
    x >>= f = .ok b ↔ ∃ a, x = .ok a ∧ f a = .ok b := by
  cases x with
  | error e => exact ⟨nofun, nofun⟩
  | ok a => exact ⟨fun h => ⟨a, rfl, h⟩, fun ⟨_, ha, h⟩ => Except.ok.inj ha ▸ h⟩

theorem mapError_eq_ok_iff {x : Except ε α} {f : ε → ε'} {a : α} :
    x.mapError f = .ok a ↔ x = .ok a := by
  cases x with
  | error e => exact ⟨nofun, nofun⟩
  | ok b => exact ⟨fun h => Except.ok.inj h ▸ rfl, fun h => Except.ok.inj h ▸ rfl⟩

theorem map_eq_ok_iff {x : Except ε α} {f : α → β} {b : β} :
    x.map f = .ok b ↔ ∃ a, x = .ok a ∧ f a = b := by
  cases x with
  | error e => exact ⟨nofun, nofun⟩
  | ok a => exact ⟨fun h => ⟨a, rfl, Except.ok.inj h⟩, fun ⟨_, ha, h⟩ => Except.ok.inj ha ▸ h ▸ rfl⟩

theorem bind_eq_error_iff {x : Except ε α} {f : α → Except ε β} {e : ε} :
    x >>= f = .error e ↔ x = .error e ∨ ∃ a, x = .ok a ∧ f a = .error e := by
  cases x with
  | error e' => exact ⟨fun h => .inl (congrArg _ (Except.error.inj h)), fun
      | .inl h => congrArg _ (Except.error.inj h)
      | .inr ⟨_, h, _⟩ => nomatch h⟩
  | ok a => exact ⟨fun h => .inr ⟨a, rfl, h⟩, fun
      | .inl h => nomatch h
      | .inr ⟨_, ha, h⟩ => Except.ok.inj ha ▸ h⟩

theorem mapError_eq_error_iff {x : Except ε α} {f : ε → ε'} {e : ε'} :
    x.mapError f = .error e ↔ ∃ e', x = .error e' ∧ f e' = e := by
  cases x with
  | error e' => exact ⟨fun h => ⟨e', rfl, Except.error.inj h⟩, fun ⟨_, he, h⟩ =>
      congrArg _ (Except.error.inj he ▸ h)⟩
  | ok a => exact ⟨nofun, nofun⟩

/-- A fold fails where one of its steps does, and what the steps before keep holds there. -/
theorem foldlM_error_invariant {f : β → α → Except ε β} {I : β → Prop} {xs : List α} {b : β} {e : ε}
    (hstep : ∀ b x c, x ∈ xs → I b → f b x = .ok c → I c) (hb : I b) (h : xs.foldlM f b = .error e) :
    ∃ x ∈ xs, ∃ b', I b' ∧ f b' x = .error e := by
  induction xs generalizing b with
  | nil => cases h
  | cons x xs ih =>
    rw [List.foldlM_cons, bind_eq_error_iff] at h
    rcases h with hx | ⟨b', hx, hrest⟩
    · exact ⟨x, List.mem_cons_self, b, hb, hx⟩
    · have hb' := hstep b x b' List.mem_cons_self hb hx
      obtain ⟨y, hy, hfail⟩ :=
        ih (fun b y c hy => hstep b y c (List.mem_cons_of_mem _ hy)) hb' hrest
      exact ⟨y, List.mem_cons_of_mem _ hy, hfail⟩

/-- What a map with errors gives comes of the items one by one. -/
theorem exists_of_mem_mapM {f : α → Except ε β} {xs : List α} {ys : List β} {y : β}
    (h : xs.mapM f = .ok ys) (hy : y ∈ ys) : ∃ x ∈ xs, f x = .ok y := by
  induction xs generalizing ys with
  | nil =>
    obtain rfl := Except.ok.inj h
    cases hy
  | cons x xs ih =>
    rw [List.mapM_cons] at h
    obtain ⟨z, hz, h⟩ := bind_eq_ok_iff.1 h
    obtain ⟨zs, hzs, h⟩ := bind_eq_ok_iff.1 h
    obtain rfl := Except.ok.inj h
    rcases List.mem_cons.1 hy with rfl | hy
    · exact ⟨x, List.mem_cons_self, hz⟩
    · obtain ⟨x', hx', hf⟩ := ih hzs hy
      exact ⟨x', List.mem_cons_of_mem _ hx', hf⟩

/-- A map with errors gives a result where each item does, and what is known of the items comes to what is
known of the results. -/
theorem exists_mapM {γ : Type} {f : α → Except ε β} {xs : List α} (key : α → γ) (key' : β → γ)
    (h : ∀ x ∈ xs, ∃ y, f x = .ok y ∧ key' y = key x) :
    ∃ ys, xs.mapM f = .ok ys ∧ ys.map key' = xs.map key := by
  induction xs with
  | nil => exact ⟨[], rfl, rfl⟩
  | cons x xs ih =>
    obtain ⟨⟨y, hy, hkey⟩, hrest⟩ := List.forall_mem_cons.1 h
    obtain ⟨ys, hys, hkeys⟩ := ih hrest
    refine ⟨y :: ys, ?_, by simp [hkey, hkeys]⟩
    rw [List.mapM_cons]
    exact bind_eq_ok_iff.2 ⟨y, hy, bind_eq_ok_iff.2 ⟨ys, hys, rfl⟩⟩

/-- A map with errors fails with the error of the first item that has one. -/
theorem mapM_eq_error_of_first {f : α → Except ε β} {xs : List α} {i : Nat} {x : α} {e : ε}
    (hi : xs[i]? = some x) (hx : f x = .error e)
    (hfirst : ∀ j < i, ∀ y, xs[j]? = some y → ∃ b, f y = .ok b) : xs.mapM f = .error e := by
  induction xs generalizing i with
  | nil => cases hi
  | cons y ys ih =>
    rw [List.mapM_cons, bind_eq_error_iff]
    cases i with
    | zero =>
      obtain rfl : y = x := Option.some.inj hi
      exact .inl hx
    | succ i =>
      obtain ⟨b, hb⟩ := hfirst 0 (Nat.succ_pos i) y rfl
      have hrest := ih hi fun j hj => hfirst (j + 1) (Nat.succ_lt_succ hj)
      exact .inr ⟨b, hb, bind_eq_error_iff.2 (.inl hrest)⟩

/-- A property of what has been done and what it has led to, kept by every step of a fold, holds
when all is done. -/
theorem foldlM_induction {f : β → α → Except ε β} (P : List α → β → Prop) {xs : List α} {b c : β}
    (nil : P [] b)
    (step : ∀ done x b c, x ∈ xs → P done b → f b x = .ok c → P (done ++ [x]) c)
    (h : xs.foldlM f b = .ok c) : P xs c := by
  suffices hrest : ∀ rest done b, done ++ rest = xs → P done b → rest.foldlM f b = .ok c → P xs c from
    hrest xs [] b rfl nil h
  intro rest
  induction rest with
  | nil =>
    intro done b hdone hP hfold
    obtain rfl : b = c := Except.ok.inj hfold
    rwa [← hdone, List.append_nil]
  | cons x rest ih =>
    intro done b hdone hP hfold
    rw [List.foldlM_cons, bind_eq_ok_iff] at hfold
    obtain ⟨b', hx, hrest⟩ := hfold
    have hmem : x ∈ xs := hdone ▸ List.mem_append_right _ List.mem_cons_self
    exact ih (done ++ [x]) b' (by rw [List.append_assoc]; exact hdone) (step done x b b' hmem hP hx)
      hrest

/-- A fold comes to its end if no step fails, given what is known of those before. -/
theorem exists_foldlM {f : β → α → Except ε β} (P : List α → β → Prop) {xs : List α} {b : β}
    (nil : P [] b)
    (step : ∀ done x rest b, done ++ x :: rest = xs → P done b →
      ∃ c, f b x = .ok c ∧ P (done ++ [x]) c) : ∃ c, xs.foldlM f b = .ok c ∧ P xs c := by
  suffices hrest : ∀ rest done b, done ++ rest = xs → P done b →
      ∃ c, rest.foldlM f b = .ok c ∧ P xs c from hrest xs [] b rfl nil
  intro rest
  induction rest with
  | nil =>
    intro done b hdone hP
    exact ⟨b, rfl, by rwa [← hdone, List.append_nil]⟩
  | cons x rest ih =>
    intro done b hdone hP
    obtain ⟨b', hx, hP'⟩ := step done x rest b hdone hP
    obtain ⟨c, hc, hall⟩ := ih (done ++ [x]) b' (by rw [List.append_assoc]; exact hdone) hP'
    exact ⟨c, by rw [List.foldlM_cons, bind_eq_ok_iff]; exact ⟨b', hx, hc⟩, hall⟩

/-- A loop that counts comes to its end if no step fails, given what is known of those before. -/
theorem exists_foldlM_range {f : β → Nat → Except ε β} (P : Nat → β → Prop) {n : Nat} {b : β}
    (zero : P 0 b) (succ : ∀ k < n, ∀ b, P k b → ∃ c, f b k = .ok c ∧ P (k + 1) c) :
    ∃ c, (List.range n).foldlM f b = .ok c ∧ P n c := by
  induction n with
  | zero => exact ⟨b, rfl, zero⟩
  | succ n ih =>
    obtain ⟨c, hc, hP⟩ := ih fun k hk => succ k (Nat.lt_succ_of_lt hk)
    obtain ⟨d, hd, hP'⟩ := succ n (Nat.lt_succ_self n) c hP
    refine ⟨d, ?_, hP'⟩
    rw [List.range_succ, List.foldlM_append]
    exact bind_eq_ok_iff.2 ⟨c, hc, bind_eq_ok_iff.2 ⟨d, hd, rfl⟩⟩

theorem mapError_bind (x : Except ε α) (f : α → Except ε β) (g : ε → ε') :
    (x >>= f).mapError g = x.mapError g >>= fun a => (f a).mapError g := by
  cases x <;> rfl

theorem mapError_mapError {ε'' : Type} (x : Except ε α) (f : ε → ε') (g : ε' → ε'') :
    (x.mapError f).mapError g = x.mapError (g ∘ f) := by
  cases x <;> rfl

end PetriNets
