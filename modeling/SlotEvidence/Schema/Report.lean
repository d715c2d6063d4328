/-
Module: SlotEvidence.Schema.Report
Purpose: Reading failures, checks and verdicts from dynamic values, and writing them as such.
Specification: SPEC_FULL 5, ProofError and VerificationResult as models
Trusted boundary: the lenient mode of the validation library
Main exports: Failure.ofValue, Check.ofValue, Check.ofParts, Verdict.ofValue, Failure.toValue,
  Check.toValue, Verdict.toValue
-/
import SlotEvidence.Schema.Field
import SlotEvidence.Verdict

namespace SlotEvidence

namespace Schema

/-- The entries that a report is read from: those of a mapping, or of a report of the same kind. -/
def reportEntries (kind : ReportKind) : Value → Checked (List (Value × Value))
  | .mapping entries => .ok entries
  | .report other fields =>
      if other = kind then .ok (fields.map fun (name, value) => (.text name, value))
      else refuse (.notRecord (Value.report kind []).typeName)
  | _ => refuse (.notRecord (Value.report kind []).typeName)

def stage (value : Value) : Checked Stage := listed Stage.all Stage.name value

def severity (value : Value) : Checked Severity := listed Severity.all Severity.name value

end Schema

open Schema

def Stage.optionalValue (stage : Option Stage) : Value :=
  match stage with
  | some s => .text s.name
  | none => .null

namespace Failure

def ofValue (value : Value) : Checked Failure := do
  let entries ← reportEntries .failure value
  closed ["code", "message", "stage", "details"] entries <|
    ((required entries "code" text).both
      ((required entries "message" text).both
        ((optional entries "stage" none (nullable Schema.stage)).both
          (optional entries "details" [] mapping)))).map
      fun (code, message, stage, details) => { code, message, stage, details }

def toValue (f : Failure) : Value :=
  .report .failure
    [("code", .text f.code), ("message", .text f.message),
     ("stage", Stage.optionalValue f.stage), ("details", .ofMembers f.details)]

end Failure

namespace Check

def ofValue (value : Value) : Checked Check := do
  let entries ← reportEntries .check value
  closed ["check_id", "ok", "severity", "stage", "message", "details"] entries <|
    ((required entries "check_id" nonemptyText).both
      ((required entries "ok" boolean).both
        ((required entries "severity" Schema.severity).both
          ((optional entries "stage" none (nullable Schema.stage)).both
            ((required entries "message" text).both
              (optional entries "details" [] mapping)))))).map
      fun (id, ok, severity, stage, message, details) =>
        { id, ok, severity, stage, message, details }

/-- Whether a value counts as nothing. -/
def isNothing : Value → Bool
  | .null | .bool false | .int 0 | .text "" => true
  | .bytes [] | .buffer [] | .list [] | .tuple [] | .set [] | .mapping [] => true
  | .float x => x.unsignedBits = 0
  | _ => false

/-- A check that passed or failed, with its parts as values.  Where nothing is given the details are
empty. -/
def ofParts (passed : Bool) (id stage message details : Value) : Checked Check :=
  let severity := if passed then Severity.info else .error
  ofValue (.ofMembers
    [("check_id", id), ("ok", .bool passed), ("severity", .text severity.name), ("stage", stage),
     ("message", message),
     ("details", if isNothing details then .ofMembers [] else details)])

def toValue (c : Check) : Value :=
  .report .check
    [("check_id", .text c.id), ("ok", .bool c.ok), ("severity", .text c.severity.name),
     ("stage", Stage.optionalValue c.stage), ("message", .text c.message),
     ("details", .ofMembers c.details)]

end Check

namespace Verdict

def ofValue (value : Value) : Checked Verdict := do
  let entries ← reportEntries .verdict value
  closed ["ok", "stage", "checks", "error"] entries <|
    ((required entries "ok" boolean).both
      ((optional entries "stage" none (nullable Schema.stage)).both
        ((optional entries "checks" [] (listOf Check.ofValue)).both
          (optional entries "error" none (nullable Failure.ofValue))))).map
      fun (ok, stage, checks, error) => { ok, stage, checks, error }

def toValue (v : Verdict) : Value :=
  .report .verdict
    [("ok", .bool v.ok), ("stage", Stage.optionalValue v.stage),
     ("checks", .list (v.checks.map Check.toValue)),
     ("error", (v.error.map Failure.toValue).getD .null)]

/-- A rejection whose stage is given by name.  An empty check name stands for that of the stage. -/
def rejectedAt (stageName code message : String) (details : Members Value) (checkId : String)
    (prior : List Check) : Checked Verdict := do
  let stage ← (Schema.stage (.text stageName)).within (.name "stage")
  pure (rejected stage code message details (if checkId = "" then stage.name else checkId) prior)

end Verdict

end SlotEvidence
