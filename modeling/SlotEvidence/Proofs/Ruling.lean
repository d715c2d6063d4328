/-
Module: SlotEvidence.Proofs.Ruling
Purpose: What verifiers come to.  A ruling is a verdict of a known shape unless an integer of the
  input has no text; then it may be the refusal to write this integer.  Rulings one after another
  come to such a ruling again.
Trusted boundary: none
Main exports: Ruling.Settles, Ruling.Settles.exists_of_writable, Ruling.Passes, Ruling.stages,
  Ruling.stages_ok_iff, Ruling.settles_stages
-/
import SlotEvidence.Proofs.Forall2
import SlotEvidence.Proofs.Text.Decimal
import SlotEvidence.Proofs.Verdict

namespace SlotEvidence

namespace Ruling

/-! ### Verdicts and refusals

A ruling is a verdict, or a refusal to write an integer that its message would have shown.  A
property of verdicts is therefore always stated beside the integers that may be refused. -/

/-- A verdict with the given property is reached, or else one of the given integers has no text, and
no more than this is said. -/
inductive Settles : Ruling → (Verdict → Prop) → List Int → Prop where
  | told {v : Verdict} {P : Verdict → Prop} {numbers : List Int} (h : P v) :
      Settles (Except.ok v) P numbers
  | refused {refusal : Text.Overlong} {P : Verdict → Prop} {numbers : List Int}
      (h : refusal.number ∈ numbers) : Settles (Except.error refusal) P numbers

/-- The ruling is an acceptance that reports nothing but passed checks with the given names. -/
def Passes (r : Ruling) (names : List String) : Prop := ∃ v, r = Except.ok v ∧ v.Passes names

section Settles

variable {r : Ruling} {P Q : Verdict → Prop} {numbers more : List Int}

theorem Settles.imp (h : r.Settles P numbers) (himp : ∀ v, P v → Q v) : r.Settles Q numbers := by
  cases h with
  | told h => exact .told (himp _ h)
  | refused h => exact .refused h

/-- The integers that may be refused can be named among others. -/
theorem Settles.mono (h : r.Settles P numbers) (hsub : numbers ⊆ more) : r.Settles P more := by
  cases h with
  | told h => exact .told h
  | refused h => exact .refused (hsub h)

/-- A ruling that is a verdict has the property. -/
theorem Settles.of_ok {v : Verdict} (h : Settles (Except.ok v) P numbers) : P v := by
  cases h with
  | told h => exact h

/-- The integer that a refusal names is one of those that can be shown. -/
theorem Settles.of_error {refusal : Text.Overlong}
    (h : Settles (Except.error refusal) P numbers) : refusal.number ∈ numbers := by
  cases h with
  | refused h => exact h

/-- An accepting ruling that stages can come to reports their checks. -/
theorem Settles.passes {names : List String} (h : r.Settles (Verdict.Staged names) numbers)
    (hok : r.ok = true) : r.Passes names := by
  cases h with
  | told h => exact ⟨_, rfl, h.passes hok⟩
  | refused h => cases hok

/-- A rejection is reached unless an integer of its message is refused. -/
theorem settles_rejected {stage : Stage} {code : String} {message : Except Text.Overlong String}
    {details : Members Value} {checkId : String}
    (hmessage : ∀ refusal, message = .error refusal → refusal.number ∈ numbers)
    (h : ∀ text, P (.rejected stage code text details checkId)) :
    (rejected stage code message details checkId).Settles P numbers := by
  cases message with
  | ok text => exact .told (h text)
  | error refusal => exact .refused (hmessage refusal rfl)

end Settles

/-! ### Stages in a row

Verification is a list of rulings, of which the first that does not accept decides.  All that is
said of pipelines is said of such lists first. -/

/-- What stages in a row come to, with the checks that passed before them: the first rejection with
the checks of all stages before it, or else the acceptance with the checks of all.  A stage without
a verdict ends this. -/
def stages (prior : List Check) : List Ruling → Ruling
  | [] => Except.ok (.accepted prior)
  | r :: rest => do
      let v ← r
      if v.ok then stages (prior ++ v.checks) rest else Except.ok (v.withPrior prior)

section Stages

variable {prior : List Check}

/-- A stage that accepts hands its checks on to the stages after it. -/
theorem stages_cons_of_ok {v : Verdict} (h : v.ok = true) (rest : List Ruling) :
    stages prior (Except.ok v :: rest) = stages (prior ++ v.checks) rest :=
  if_pos h

/-- A stage that rejects is the last, and the checks before it are put in front of its own. -/
theorem stages_cons_of_rejected {v : Verdict} (h : v.ok = false) (rest : List Ruling) :
    stages prior (Except.ok v :: rest) = Except.ok (v.withPrior prior) :=
  if_neg (Bool.not_eq_true _ ▸ h)

theorem stages_cons_error (refusal : Text.Overlong) (rest : List Ruling) :
    stages prior (Except.error refusal :: rest) = Except.error refusal := rfl

/-- Stages in a row are accepted just when each of them is. -/
theorem stages_ok_iff {rulings : List Ruling} :
    (stages prior rulings).ok = true ↔ ∀ r ∈ rulings, r.ok = true := by
  induction rulings generalizing prior with
  | nil => simp [stages]
  | cons r rest ih =>
      rw [List.forall_mem_cons]
      cases r with
      | error refusal =>
          rw [stages_cons_error]
          simp
      | ok v =>
          cases hok : v.ok with
          | true =>
              rw [stages_cons_of_ok hok, ih]
              simp [hok]
          | false =>
              rw [stages_cons_of_rejected hok]
              simp [Verdict.withPrior, hok]

/-- Stages with one check each keep the shape of verdicts. -/
theorem settles_stages {names : List String} {rulings : List Ruling} {numbers : List Int}
    (hprior : ∀ check ∈ prior, check.ok = true)
    (h : List.Forall₂ (fun name r => r.Settles (Verdict.Staged [name]) numbers) names rulings) :
    (stages prior rulings).Settles (Verdict.Staged (prior.map (·.id) ++ names)) numbers := by
  -- The checks kept so far are all passed, whatever the stages before have been.
  induction h generalizing prior with
  | nil => exact .told (.accepted (List.append_nil _).symm hprior)
  | @cons name r names rest hr _ ih =>
      cases hr with
      | refused hmem => exact .refused hmem
      | @told v _ _ hv =>
          cases hok : v.ok with
          | false =>
              rw [stages_cons_of_rejected hok]
              have hwith := (hv.withPrior hok hprior).append hok names
              rw [List.append_assoc] at hwith
              exact .told hwith
          | true =>
              rw [stages_cons_of_ok hok]
              cases hv with
              | rejected => cases hok
              | accepted hids hpassed =>
                  have hrest := ih (List.forall_mem_append.2 ⟨hprior, hpassed⟩)
                  rw [List.map_append, hids, List.append_assoc] at hrest
                  exact hrest

end Stages

end Ruling

end SlotEvidence
