/-
Module: SlotEvidence.Compound.Completeness
Purpose: Evidence that an account was not touched in a slot, and its verification.
Specification: SPEC_FULL 7.6, CompoundCompletenessProof (`verify_compound_completeness`)
Trusted boundary: none
Main exports: CompoundCompleteness, CompoundCompleteness.verify
-/
import SlotEvidence.Compound.Pipeline
import SlotEvidence.Tree.Absence

namespace SlotEvidence

/-- Evidence that an account was not touched in a slot. -/
structure CompoundCompleteness where
  targetSlot : Int
  bank : Bank
  slotExhibit : SlotExhibit
  exhibit : Exhibit
deriving DecidableEq

namespace CompoundCompleteness

def kind : String := "compound_completeness"

/-- Runs the stages in order until one rejects: the bank hash, the absence of the candidate, and the
slot history. -/
def run (s : Settings) (c : CompoundCompleteness) (candidate blockhash : Bytes)
    (trusted : History) : Except Text.Overlong (Pipeline × Verdict) := do
  let p : Pipeline := { kind := kind, slot := c.targetSlot }
  match ← p.anchor s c.bank blockhash trusted with
  | (p, .error rejection) => return (p, rejection)
  | (p, .ok bankHash) =>
      p.finish
        [c.exhibit.verify s candidate c.bank.accountsDelta.bytes,
         c.slotExhibit.verify s c.targetSlot bankHash.bytes trusted]

/-- Checks evidence that an account was not touched in a slot, `verify_compound_completeness`
[SPEC_FULL 7.6]. -/
def verify (s : Settings) (c : CompoundCompleteness) (candidate blockhash : Bytes)
    (trusted : History) : Ruling :=
  (c.run s candidate blockhash trusted).map (·.2)

end CompoundCompleteness

end SlotEvidence
