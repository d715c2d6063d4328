/-
Module: SlotEvidence.Fault
Purpose: What stops the making of evidence or settings: faults with a code, an optional stage and
  details.
Specification: SPEC_FULL 5, ProofException and its subclasses
Trusted boundary: none
Main exports: Fault, FaultKind, Fault.literal, Fault.toFailure
-/
import SlotEvidence.Schema.Report

namespace SlotEvidence

inductive FaultKind where
  | general
  | structural
  | chunk
  | configuration
  | canonicalization
  | wire
deriving DecidableEq

def FaultKind.name : FaultKind → String
  | .general => "ProofException"
  | .structural => "StructuralException"
  | .chunk => "ChunkValidationException"
  | .configuration => "ConfigurationException"
  | .canonicalization => "CanonicalizationException"
  | .wire => "WireFormatException"

/-- A fault.  Its stage is a free text; only a report insists on a known one. -/
structure Fault where
  kind : FaultKind
  message : String
  code : String
  stage : Option String := none
  details : Members Value := []

namespace Fault

def generalCode : String := "PROOF_ERROR"

def general (message : String) (code : String := generalCode) (stage : Option String := none)
    (details : Members Value := []) : Fault :=
  { kind := .general, message, code, stage, details }

def structural (message : String) (details : Members Value := []) : Fault :=
  { kind := .structural, message, code := Code.structuralError, details }

/-- A bad sequence of chunks.  The index of the chunk, if there is one, joins the details. -/
def chunk (message code : String) (index : Option Int := none) (details : Members Value := []) :
    Fault where
  kind := .chunk
  message := message
  code := code
  stage := some Stage.blobDigest.name
  details :=
    match index with
    | some index => details.put "index" (.int index)
    | none => details

/-- Unusable settings.  The name of the field, if there is one, joins the details. -/
def configuration (message : String) (field : String := "") (details : Members Value := []) :
    Fault where
  kind := .configuration
  message := message
  code := Code.configurationError
  details := if field = "" then details else details.put "field" (.text field)

def canonicalization (message : String) (details : Members Value := []) : Fault :=
  { kind := .canonicalization, message, code := Code.canonicalizationError, details }

/-- A wire text that holds no evidence, or evidence that has no wire text. -/
def wire (message : String) (code : String := Code.wireDecodeError)
    (details : Members Value := []) : Fault :=
  { kind := .wire, message, code, details }

/-- A fault in a line: its kind, code and message. -/
def literal (f : Fault) : String :=
  f.kind.name ++ "(code=" ++ Text.quote f.code ++ ", message=" ++ Text.quote f.message ++ ")"

/-- The failure that reports a fault, at the given stage or else at its own. -/
def toFailure (f : Fault) (stage : Option String := none) : Schema.Checked Failure := do
  let name := (stage.filter (· ≠ "")).or f.stage
  let given := (name.map Value.text).getD .null
  let stage ← (Schema.nullable Schema.stage given).within (.name "stage")
  pure { code := f.code, message := f.message, stage, details := f.details }

end Fault

end SlotEvidence
