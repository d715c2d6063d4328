/-
Module: SlotEvidence.Proofs.Outcome
Purpose: What the success of a computation in steps, or its failure, says about its steps.
Trusted boundary: none
Main exports: bind_eq_ok, map_eq_ok, mapError_eq_ok, bind_eq_error, map_eq_error, mapError_eq_error,
  failure?, failure?_map, failure?_both
-/

namespace SlotEvidence

/-- Two steps succeed just when the first one does and the second one does with what it gave. -/
theorem bind_eq_ok {ε α β : Type} {x : Except ε α} {f : α → Except ε β} {b : β} :
    (x >>= f) = .ok b ↔ ∃ a, x = .ok a ∧ f a = .ok b := by
  cases x <;> simp [bind, Except.bind]

theorem map_eq_ok {ε α β : Type} {x : Except ε α} {f : α → β} {b : β} :
    x.map f = .ok b ↔ ∃ a, x = .ok a ∧ f a = b := by
  cases x <;> simp [Except.map]

/-- Another form of the fault leaves a success as it is. -/
theorem mapError_eq_ok {ε δ α : Type} {x : Except ε α} {f : ε → δ} {a : α} :
    x.mapError f = .ok a ↔ x = .ok a := by
  cases x with
  | error e =>
      change Except.error (f e) = .ok a ↔ Except.error e = .ok a
      simp
  | ok b =>
      change Except.ok b = .ok a ↔ Except.ok b = .ok a
      simp

/-- Two steps fail just when the first one does, or the second one does with what it gave. -/
theorem bind_eq_error {ε α β : Type} {x : Except ε α} {f : α → Except ε β} {e : ε} :
    (x >>= f) = .error e ↔ x = .error e ∨ ∃ a, x = .ok a ∧ f a = .error e := by
  cases x <;> simp [bind, Except.bind]

theorem map_eq_error {ε α β : Type} {x : Except ε α} {f : α → β} {e : ε} :
    x.map f = .error e ↔ x = .error e := by
  cases x <;> simp [Except.map]

theorem mapError_eq_error {ε δ α : Type} {x : Except ε α} {f : ε → δ} {d : δ} :
    x.mapError f = .error d ↔ ∃ e, x = .error e ∧ f e = d := by
  cases x with
  | error e =>
      change Except.error (f e) = .error d ↔ _
      simp
  | ok b =>
      change Except.ok b = .error d ↔ _
      simp

/-- The fault of a computation that fails. -/
def failure? {ε α : Type} : Except ε α → Option ε
  | .ok _ => none
  | .error e => some e

/-- What is made of a success does not bear on the failure. -/
theorem failure?_map {ε α β : Type} (x : Except ε α) (f : α → β) :
    failure? (x.map f) = failure? x := by
  cases x <;> rfl

/-- Of two computations that do not depend on each other, the first one that fails gives the
fault. -/
theorem failure?_both {ε α β γ : Type} (x : Except ε α) (y : Except ε β) (f : α → β → γ) :
    failure? (x >>= fun a => y >>= fun b => pure (f a b)) = (failure? x).or (failure? y) := by
  cases x <;> cases y <;> rfl

end SlotEvidence
