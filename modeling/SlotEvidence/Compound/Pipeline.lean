/-
Module: SlotEvidence.Compound.Pipeline
Purpose: Verification in stages: the checks of passing stages are collected, a failing stage ends
  with a rejection that carries them, and every step is logged.
Specification: SPEC_FULL 7.6, steps 3, 4 and 6, and 9, `max_workers`
Trusted boundary: the workers of a pool compute each value on its own
Main exports: Pipeline, Pipeline.record, Pipeline.passed, Pipeline.accept, Pipeline.anchor,
  mapOrdered
-/
import SlotEvidence.Bank
import SlotEvidence.History.Evidence

namespace SlotEvidence

/-- How important a line of the log is. -/
inductive LogLevel where
  | debug
  | info
  | warning
deriving DecidableEq

def LogLevel.name : LogLevel → String
  | .debug => "DEBUG"
  | .info => "INFO"
  | .warning => "WARNING"

structure LogLine where
  level : LogLevel
  text : String
deriving DecidableEq

/-- A verification in stages. -/
structure Pipeline where
  /-- What kind of evidence is verified. -/
  kind : String
  slot : Int
  checks : List Check := []
  log : List LogLine := []

namespace Pipeline

/-- The pipeline with another line in its log. -/
def note (p : Pipeline) (level : LogLevel) (text : String) : Pipeline :=
  { p with log := p.log ++ [⟨level, text⟩] }

/-- Keeps a check that passed.  The line of the log shows the slot, which may have no text. -/
def passed (p : Pipeline) (check : Check) : Except Text.Overlong Pipeline := do
  let slot ← Text.decimal p.slot
  let p := p.note .debug (p.kind ++ " slot=" ++ slot ++ ": " ++ check.id ++ " passed")
  return { p with checks := p.checks ++ [check] }

def stageText (stage : Option Stage) : String := (stage.map Stage.name).getD "None"

def rejectionText (p : Pipeline) (v : Verdict) : Except Text.Overlong String :=
  return "Rejected " ++ p.kind ++ " proof for slot " ++ (← Text.decimal p.slot) ++ " at stage "
    ++ stageText v.stage ++ ": [" ++ v.code?.getD "None" ++ "] "
    ++ (v.error.map (·.message)).getD ""

/-- Gives a rejection back with the checks kept before. -/
def reject (p : Pipeline) (v : Verdict) : Except Text.Overlong (Pipeline × Verdict) :=
  return (p.note .warning (← p.rejectionText v), v.withPrior p.checks)

/-- Takes the verdict of a stage: the checks of an acceptance are kept, a rejection is given
back. -/
def record (p : Pipeline) (v : Verdict) : Except Text.Overlong (Pipeline × Option Verdict) :=
  if v.ok then return (← v.checks.foldlM passed p, none)
  else (p.reject v).map fun (p, rejection) => (p, some rejection)

def accept (p : Pipeline) : Except Text.Overlong (Pipeline × Verdict) := do
  let v := Verdict.accepted p.checks
  let slot ← Text.decimal p.slot
  return (p.note .info ("Verified " ++ p.kind ++ " proof for slot " ++ slot ++ " ("
    ++ toString v.passedCount ++ " checks)"), v)

/-- Runs stages one after another until one rejects. -/
def recordAll (p : Pipeline) : List Ruling → Except Text.Overlong (Pipeline × Option Verdict)
  | [] => return (p, none)
  | r :: rest => do
      match ← p.record (← r) with
      | (p, none) => p.recordAll rest
      | (p, some rejection) => return (p, some rejection)

/-- Runs the last stages and accepts if none of them rejects. -/
def finish (p : Pipeline) (rulings : List Ruling) : Except Text.Overlong (Pipeline × Verdict) := do
  match ← p.recordAll rulings with
  | (p, some rejection) => return (p, rejection)
  | (p, none) => p.accept

/-- Ties the parts of a bank hash to the trusted history, steps 3 and 4 of [SPEC_FULL 7.6]: the bank
hash is the one that the history records for the slot, the parts must be those of the given block,
and they must make that hash. -/
def anchor (p : Pipeline) (s : Settings) (bank : Bank) (blockhash : Bytes) (trusted : History) :
    Except Text.Overlong (Pipeline × Except Verdict Bytes32) := do
  match ← trusted.trustedHash p.slot with
  | .error rejection =>
      let (p, rejection) ← p.reject rejection
      return (p, .error rejection)
  | .ok bankHash =>
      match ← p.recordAll
          [pure (bank.verifyBlockhash blockhash), pure (bank.verify s bankHash.bytes)] with
      | (p, some rejection) => return (p, .error rejection)
      | (p, none) => return (p, .ok bankHash)

end Pipeline

section Workers

variable {ε α : Type} {count : Nat}

/-- The values of a function at `0`, …, `count - 1`, one after another.  The first refusal ends
this. -/
def mapInTurn (f : Fin count → Except ε α) : Except ε (List α) := (List.finRange count).mapM f

/-- The same by a pool, which computes every value, and then hands out the outcomes in the order of
the places up to the first refusal. -/
def mapPooled (f : Fin count → Except ε α) : Except ε (List α) :=
  ((List.finRange count).map f).mapM id

/-- The values of a function at `0`, …, `count - 1`, in this order, by a pool if the settings allow
more than one worker and there is more than one value [SPEC_FULL 9]. -/
def mapOrdered (s : Settings) (f : Fin count → Except ε α) : Except ε (List α) :=
  if s.maxWorkers ≤ 1 ∨ count ≤ 1 then mapInTurn f else mapPooled f

end Workers

end SlotEvidence
