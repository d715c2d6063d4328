/-
Module: SlotEvidence.Verdict
Purpose: What a verification reports: the checks that ran and, if evidence was rejected, the stage
  and the reason.
Specification: SPEC_FULL 5, ProofStage, CheckResult and VerificationResult
Trusted boundary: none
Main exports: Stage, Severity, Failure, Check, Verdict, Code, Ruling
-/
import SlotEvidence.Text.Decimal
import SlotEvidence.Value

namespace SlotEvidence

inductive Stage where
  | blobDigest
  | accountMembership
  | bankHash
  | slotHistory
deriving DecidableEq

namespace Stage

def name : Stage → String
  | .blobDigest => "blob_digest"
  | .accountMembership => "account_membership"
  | .bankHash => "bank_hash"
  | .slotHistory => "slot_history"

def all : List Stage := [.blobDigest, .accountMembership, .bankHash, .slotHistory]

end Stage

/-- How serious a check's outcome is. -/
inductive Severity where
  | info
  | warn
  | error
deriving DecidableEq

namespace Severity

def name : Severity → String
  | .info => "info"
  | .warn => "warn"
  | .error => "error"

def all : List Severity := [.info, .warn, .error]

end Severity

/-! ### Codes

Every rejection and every fault carries a code that does not change when the wording does. -/

namespace Code

def structuralError : String := "STRUCTURAL_ERROR"

def emptyInput : String := "EMPTY_INPUT"

def indexGap : String := "INDEX_GAP"

def duplicateIndex : String := "DUPLICATE_INDEX"

def hashMismatch : String := "HASH_MISMATCH"

def slotNotFound : String := "SLOT_NOT_FOUND"

def adjacencyViolation : String := "ADJACENCY_VIOLATION"

def invalidProofShape : String := "INVALID_PROOF_SHAPE"

def blockhashMismatch : String := "BLOCKHASH_MISMATCH"

def unexpectedAccount : String := "UNEXPECTED_ACCOUNT"

def configurationError : String := "CONFIGURATION_ERROR"

def canonicalizationError : String := "CANONICALIZATION_ERROR"

def unsupportedFormatVersion : String := "UNSUPPORTED_FORMAT_VERSION"

def wireDecodeError : String := "WIRE_DECODE_ERROR"

end Code

/-- Why evidence was rejected. -/
structure Failure where
  code : String
  message : String
  stage : Option Stage := none
  details : Members Value := []

structure Check where
  id : String
  ok : Bool
  severity : Severity
  stage : Option Stage := none
  message : String
  details : Members Value := []

namespace Check

def passed (id : String) (stage : Option Stage) (message : String) (details : Members Value) :
    Check :=
  { id, ok := true, severity := .info, stage, message, details }

def failed (id : String) (stage : Option Stage) (message : String) (details : Members Value) :
    Check :=
  { id, ok := false, severity := .error, stage, message, details }

def passedMessage : String := "Check passed"

end Check

/-- The outcome of a verification with the checks that ran, in order. -/
structure Verdict where
  ok : Bool
  stage : Option Stage := none
  checks : List Check := []
  error : Option Failure := none

namespace Verdict

def code? (v : Verdict) : Option String := v.error.map (·.code)

def passedCount (v : Verdict) : Nat := v.checks.countP (·.ok)

def accepted (checks : List Check) : Verdict := { ok := true, checks }

/-- Rejection at a stage.  A failed check is appended to the checks that came before; its details
are those of the rejection with the code in front. -/
def rejected (stage : Stage) (code message : String) (details : Members Value := [])
    (checkId : String := stage.name) (prior : List Check := []) : Verdict where
  ok := false
  stage := stage
  checks := prior ++
    [Check.failed checkId stage message (Members.putAll [("code", .text code)] details)]
  error := some { code, message, stage, details }

/-- The verdict with checks that came before its own. -/
def withPrior (v : Verdict) (prior : List Check) : Verdict := { v with checks := prior ++ v.checks }

/-- A rejection with further details.  Of its checks only the failed one remains.  An acceptance
stays as it is. -/
def tagged (v : Verdict) (extra : Members Value) : Verdict :=
  match v.stage, v.error with
  | some stage, some failure =>
      let checkId := ((v.checks.getLast?).map (·.id)).getD stage.name
      rejected stage failure.code failure.message (failure.details.putAll extra) checkId
  | _, _ => v

/-- The first verdict that is there. -/
def first? (verdicts : List (Option Verdict)) : Option Verdict := verdicts.findSome? id

@[simp] theorem ok_accepted (checks : List Check) : (accepted checks).ok = true := rfl

end Verdict

/-- What a verifier comes to: a verdict, or else no more than the refusal to write an integer that
the verdict's message would show. -/
abbrev Ruling := Except Text.Overlong Verdict

namespace Ruling

/-- Whether a verdict is reached, and it accepts. -/
def ok : Ruling → Bool
  | Except.ok v => v.ok
  | Except.error _ => false

/-- The rejection with a message that has to be written first. -/
def rejected (stage : Stage) (code : String) (message : Except Text.Overlong String)
    (details : Members Value := []) (checkId : String := stage.name) : Ruling :=
  message.map fun message => .rejected stage code message details checkId

@[simp] theorem ok_ok (v : Verdict) : ok (Except.ok v) = v.ok := rfl

@[simp] theorem ok_error (refusal : Text.Overlong) : ok (Except.error refusal) = false := rfl

@[simp] theorem ok_rejected (stage : Stage) (code : String) (message : Except Text.Overlong String)
    (details : Members Value) (checkId : String) :
    (rejected stage code message details checkId).ok = false := by
  cases message <;> rfl

end Ruling

end SlotEvidence
