import PetriNets.Proofs.Script

/-!
# Actions

An action gives an answer or an error, and in either case it leaves something behind. So a call that
is refused half way may leave behind what it has changed by then. An action that does not, on what is
seen of a model, comes to the `outcome` of a call on the model; where all actions are of this kind, a
script of them comes to what the script of the calls does (`runActions_eq`).
-/

namespace PetriNets

variable {γ ε τ σ σ' α β : Type}

/-! ## One action after the other -/

section Bind

variable {action : EStateM ε σ α} {next : α → EStateM ε σ β} {x y : σ} {a : α} {e : ε}

theorem bind_of_ok (h : action x = .ok a y) : (action >>= next) x = next a y := by
  show EStateM.bind action next x = _
  unfold EStateM.bind
  rw [h]

theorem bind_of_error (h : action x = .error e y) : (action >>= next) x = .error e y := by
  show EStateM.bind action next x = _
  unfold EStateM.bind
  rw [h]

end Bind

/-! ## Outcomes -/

/-- What a call on a model is for what is seen of the model: refused, it leaves all as it is. -/
def outcome (view : σ → σ') (x : σ) : Except ε (α × σ) → EStateM.Result ε σ' α
  | .ok (a, y) => .ok a (view y)
  | .error e => .error e (view x)

theorem outcome_eq_error {view : σ → σ'} {x : σ} {r : Except ε (α × σ)} {e : ε} {z : σ'}
    (h : outcome view x r = .error e z) : r = .error e ∧ z = view x := by
  cases r with
  | error e' =>
    obtain ⟨rfl, rfl⟩ := EStateM.Result.error.inj h
    exact ⟨rfl, rfl⟩
  | ok r => cases h

theorem outcome_eq_ok {view : σ → σ'} {x : σ} {r : Except ε (α × σ)} {a : α} {z : σ'}
    (h : outcome view x r = .ok a z) : ∃ y, r = .ok (a, y) ∧ z = view y := by
  cases r with
  | error e => cases h
  | ok r =>
    obtain ⟨rfl, rfl⟩ := EStateM.Result.ok.inj h
    exact ⟨r.2, rfl, rfl⟩

theorem map_outcome {view : σ → σ'} {x : σ} {action : EStateM ε σ' α} {r : Except ε (α × σ)}
    (f : α → β) (h : action (view x) = outcome view x r) :
    (f <$> action) (view x) = outcome view x (r.map (Prod.map f id)) := by
  show EStateM.map f action (view x) = _
  unfold EStateM.map
  rw [h]
  cases r <;> rfl

/-! ## Scripts of actions -/

/-- Makes one action. Gives its answer and what it leaves behind. -/
def attemptAction (action : EStateM ε σ τ) (x : σ) : Except ε τ × σ :=
  match action x with
  | .ok a y => (.ok a, y)
  | .error e y => (.error e, y)

/-- Makes the actions of a script, whether or not some of them are refused. -/
def runActions (action : γ → EStateM ε σ τ) : List γ → σ → List (Except ε τ) × σ
  | [], x => ([], x)
  | c :: cs, x =>
    let (a, y) := attemptAction (action c) x
    let (as, z) := runActions action cs y
    (a :: as, z)

theorem runActions_cons {action : γ → EStateM ε σ τ} {c : γ} {cs : List γ} {x : σ} :
    runActions action (c :: cs) x =
      ((attemptAction (action c) x).1 :: (runActions action cs (attemptAction (action c) x).2).1,
        (runActions action cs (attemptAction (action c) x).2).2) := rfl

theorem attemptAction_of_outcome {f : σ → Except ε (τ × σ)} {action : EStateM ε σ' τ}
    {view : σ → σ'} {x : σ} (h : action (view x) = outcome view x (f x)) :
    attemptAction action (view x) = Prod.map id view (attempt f x) := by
  unfold attemptAction attempt
  rw [h]
  cases f x <;> rfl

/-- A script of actions, whatever of it is refused, comes to what the script of the calls comes to, if
each action does. -/
theorem runActions_eq {call : γ → σ → Except ε (τ × σ)} {action : γ → EStateM ε σ' τ}
    (view : σ → σ') {I : σ → Prop} {x : σ} (hcall : ∀ c x a y, I x → call c x = .ok (a, y) → I y)
    (haction : ∀ c x, I x → action c (view x) = outcome view x (call c x)) (hx : I x)
    (cs : List γ) : runActions action cs (view x) = Prod.map id view (runScript call cs x) := by
  induction cs generalizing x with
  | nil => rfl
  | cons c cs ih =>
    have hone := attemptAction_of_outcome (haction c x hx)
    have hrest := ih (attempt_invariant hcall hx c)
    rw [runActions_cons, runScript_cons, hone, Prod.map_snd, hrest]
    rfl

end PetriNets
