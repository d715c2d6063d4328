/-
Module: SlotEvidence.Compound.Inclusion
Purpose: Evidence that blobs were anchored in a slot, from the bytes of each blob to the slot
  history, and its verification.
Specification: SPEC_FULL 7.6, CompoundInclusionProof (`verify_compound_inclusion`)
Trusted boundary: none
Main exports: CompoundInclusion, CompoundInclusion.verify, CompoundInclusion.Entry,
  CompoundInclusion.entryOutcome
-/
import SlotEvidence.Blob.Commitment
import SlotEvidence.Compound.Pipeline
import SlotEvidence.Tree.Path

namespace SlotEvidence

namespace CompoundInclusion

/-- A blob's commitment and the path of its account. -/
structure Entry where
  blob : BlobCommitment
  path : Path
deriving DecidableEq

end CompoundInclusion

/-- Evidence that blobs were anchored in a slot. -/
structure CompoundInclusion where
  targetSlot : Int
  bank : Bank
  slotExhibit : SlotExhibit
  entries : List CompoundInclusion.Entry
deriving DecidableEq

namespace CompoundInclusion

def kind : String := "compound_inclusion"

/-- The rejection of an entry at the account stage. -/
def entryVerdict (code : String) (index : Nat) (message : String) (details : Members Value) :
    Verdict :=
  .rejected .accountMembership code ("Blob " ++ toString index ++ ": " ++ message)
    (("blob_index", .int index) :: details) Path.checkName

/-- What is submitted for one blob: an entry, and from the verifier the address that is expected
and, if the bytes are to be checked, the blob. -/
structure Submission where
  entry : Entry
  address : Bytes
  blob? : Option Bytes

/-- What the check of an entry comes to: the rejection, or the root that its path leads to. -/
abbrev Outcome := Except Verdict Bytes

def Outcome.rejection? : Outcome → Option Verdict
  | .error rejection => some rejection
  | .ok _ => none

def Outcome.root? : Outcome → Option Bytes
  | .error _ => none
  | .ok root => some root

/-- Checks an entry: its account must be the expected one, the bytes, if they are given, must fit
the commitment, and the path must be well formed and begin at the account's leaf. -/
def entryOutcome (s : Settings) (index : Nat) (g : Submission) : Except Text.Overlong Outcome :=
  let blob := g.entry.blob
  let path := g.entry.path
  if blob.address.bytes ≠ g.address then
    return .error (entryVerdict Code.unexpectedAccount index "proof is for a different account"
      [("expected", .text (Hex.encode g.address)), ("actual", .text blob.address.hex)])
  else
    match (g.blob?.map (blob.verify s)).filter fun v => !v.ok with
    | some rejection => return .error (rejection.tagged [("blob_index", .int index)])
    | none =>
        if path.leaf ≠ (blob.leaf s).bytes then
          return .error (entryVerdict Code.hashMismatch index
            "inclusion leaf is not the blob's account leaf"
            [("expected", .text (blob.leaf s).hex), ("actual", .text (Hex.encode path.leaf))])
        else
          match path.defect? s with
          | some defect =>
              return .error (entryVerdict Code.invalidProofShape index (← defect.message) [])
          | none => return .ok (path.root s)

/-- The rejection of the form of the evidence: there must be an entry, and as many addresses, and
blobs if they are given, as entries. -/
def shapeRejection? (entries addresses : Nat) (blobs? : Option Nat) : Option Verdict :=
  if entries = 0 then
    some (.rejected .blobDigest Code.invalidProofShape
      "Compound inclusion proof has no blob entries")
  else if addresses ≠ entries then
    some (.rejected .blobDigest Code.invalidProofShape
      s!"Got {addresses} addresses for {entries} blob proofs"
      [("addresses", .int addresses), ("entries", .int entries)])
  else
    match blobs? with
    | some blobs =>
        if blobs ≠ entries then
          some (.rejected .blobDigest Code.invalidProofShape
            s!"Got {blobs} blobs for {entries} blob proofs"
            [("blobs", .int blobs), ("entries", .int entries)])
        else none
    | none => none

/-- The blob that is given for each entry, if blobs are given. -/
def blobsOf (c : CompoundInclusion) (blobs? : Option (List Bytes)) : List (Option Bytes) :=
  (blobs?.map fun blobs => blobs.map some).getD (c.entries.map fun _ => none)

/-- The entries with what the verifier supplies for them. -/
def submissions (c : CompoundInclusion) (addresses : List Bytes) (blobs? : Option (List Bytes)) :
    List Submission :=
  (c.entries.zip (addresses.zip (c.blobsOf blobs?))).map
    fun (entry, address, blob?) => ⟨entry, address, blob?⟩

/-- The outcomes of all entries, in their order. -/
def outcomes (s : Settings) (c : CompoundInclusion) (addresses : List Bytes)
    (blobs? : Option (List Bytes)) : Except Text.Overlong (List Outcome) :=
  let given := c.submissions addresses blobs?
  mapOrdered s fun place : Fin given.length => entryOutcome s place (given.get place)

/-- The rejection of the roots that the paths lead to, numbered from `index` on: each must be the
one that the bank hash commits to. -/
def rootsRejection? (delta : Bytes32) (index : Nat) : List Bytes → Option Verdict
  | [] => none
  | root :: roots =>
      if root ≠ delta.bytes then
        some (entryVerdict Code.hashMismatch index
          "account root does not match the accounts-delta hash"
          [("expected", .text delta.hex), ("actual", .text (Hex.encode root))])
      else rootsRejection? delta (index + 1) roots

/-- The check that every entry is bound to its account. -/
def entriesCheck (entries : Nat) (bytesChecked : Bool) : Check :=
  .passed BlobCommitment.checkName (some .blobDigest)
    s!"{entries} blob(s) bound to their account leaves"
    [("blobs", .int entries), ("bytes_checked", .bool bytesChecked)]

/-- The check that every account is in the tree. -/
def rootsCheck (root : Bytes32) : Check :=
  .passed Path.checkName (some .accountMembership)
    "Every blob account is included under the accounts-delta hash"
    [("accounts_delta_hash", .text root.hex)]

/-- Runs the stages after the entries, whose paths lead to the given roots: the bank hash, the
accounts' roots, and the slot history. -/
def runAnchored (s : Settings) (c : CompoundInclusion) (blockhash : Bytes) (trusted : History)
    (roots : List Bytes) (p : Pipeline) : Except Text.Overlong (Pipeline × Verdict) := do
  match ← p.anchor s c.bank blockhash trusted with
  | (p, .error rejection) => return (p, rejection)
  | (p, .ok bankHash) =>
      match rootsRejection? c.bank.accountsDelta 0 roots with
      | some rejection => p.reject rejection
      | none =>
          let p ← p.passed (rootsCheck c.bank.accountsDelta)
          p.finish [c.slotExhibit.verify s c.targetSlot bankHash.bytes trusted]

/-- Runs the stages in order until one rejects.  The form of the evidence comes first.  Then all
entries are checked, and the first one that fails counts. -/
def run (s : Settings) (c : CompoundInclusion) (blockhash : Bytes) (trusted : History)
    (addresses : List Bytes) (blobs? : Option (List Bytes)) :
    Except Text.Overlong (Pipeline × Verdict) := do
  let p : Pipeline := { kind := kind, slot := c.targetSlot }
  match shapeRejection? c.entries.length addresses.length (blobs?.map List.length) with
  | some rejection => p.reject rejection
  | none =>
      let outcomes ← c.outcomes s addresses blobs?
      match Verdict.first? (outcomes.map Outcome.rejection?) with
      | some rejection => p.reject rejection
      | none =>
          let p ← p.passed (entriesCheck c.entries.length blobs?.isSome)
          c.runAnchored s blockhash trusted (outcomes.filterMap Outcome.root?) p

/-- Checks evidence that blobs were anchored in a slot, `verify_compound_inclusion` [SPEC_FULL 7.6].
The verifier supplies the blockhash, a history that it trusts, the address expected for each entry
and, if they are to be checked, the bytes of each blob. -/
def verify (s : Settings) (c : CompoundInclusion) (blockhash : Bytes) (trusted : History)
    (addresses : List Bytes) (blobs? : Option (List Bytes)) : Ruling :=
  (c.run s blockhash trusted addresses blobs?).map (·.2)

end CompoundInclusion

end SlotEvidence
