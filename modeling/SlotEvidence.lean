import SlotEvidence.Canonical
import SlotEvidence.Settings.File
import SlotEvidence.Tree
import SlotEvidence.Wire
import SlotEvidence.Proofs.HashBreak
import SlotEvidence.Proofs.Bytes
import SlotEvidence.Proofs.Tree.Preimage
import SlotEvidence.Proofs.Tree.Layout
import SlotEvidence.Proofs.Tree.PathLevels
import SlotEvidence.Proofs.Tree.Search
import SlotEvidence.Proofs.Tree.Path
import SlotEvidence.Proofs.Tree.Inclusion
import SlotEvidence.Proofs.Tree.Neighbours
import SlotEvidence.Proofs.Tree.Exclusion
import SlotEvidence.Proofs.Bank
import SlotEvidence.Proofs.Compound.Pipeline
import SlotEvidence.Proofs.Compound.Completeness
import SlotEvidence.Proofs.Blob
import SlotEvidence.Proofs.Compound.Inclusion
import SlotEvidence.Proofs.Tree.Completeness
import SlotEvidence.Proofs.Tree.Binding
import SlotEvidence.Proofs.Compound.Honest
import SlotEvidence.Proofs.Wire.RoundTrip
import SlotEvidence.Proofs.Blob.Accumulator
import SlotEvidence.Proofs.History.Record
import SlotEvidence.Proofs.Canonical.Faithful
import SlotEvidence.Proofs.Wire.Documented.Envelope
import SlotEvidence.Proofs.Compound.Shape
import SlotEvidence.Proofs.History.Decision
import SlotEvidence.Proofs.Compound.FailureOrder
import SlotEvidence.Proofs.Wire.Refusal
import SlotEvidence.Proofs.Blob.Binding
import SlotEvidence.Proofs.Canonical.Stable
import SlotEvidence.Proofs.Settings.Environment
import SlotEvidence.Proofs.Tree.Building
import SlotEvidence.Proofs.Tree.Padding
import SlotEvidence.Proofs.Canonical.Traversal
import SlotEvidence.Proofs.Hex.Spelling
import SlotEvidence.Proofs.Tree.Shape
import SlotEvidence.Proofs.Tree.PathEntries
import SlotEvidence.Proofs.Committed
import SlotEvidence.Proofs.Blob.Partition
import SlotEvidence.Proofs.Wire.Conversion
