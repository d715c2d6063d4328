/-
Module: SlotEvidence.Blob.Commitment
Purpose: What an account commits to about a blob: its address, the digest of the bytes and their
  number.
Specification: SPEC_FULL 7.5, BlobProof (`verify_blob`), and 3, blob account leaf
Trusted boundary: none
Main exports: BlobCommitment, BlobCommitment.ofBlob, BlobCommitment.leaf, BlobCommitment.verify
-/
import SlotEvidence.Blob

namespace SlotEvidence

/-- The commitment to a blob. -/
structure BlobCommitment where
  address : Bytes32
  digest : Bytes32
  size : UInt32
deriving DecidableEq

namespace BlobCommitment

/-- Why there is no commitment with given parts. -/
inductive Misfit where
  | addressLength (length : Nat)
  | digestLength (length : Nat)
  | sizeRange (size : Int)
deriving DecidableEq

def Misfit.message : Misfit → String
  | .addressLength length => s!"Blob address must be 32 bytes, got {length}"
  | .digestLength length => s!"Blob digest must be 32 bytes, got {length}"
  | .sizeRange size =>
      Text.told (return "Blob size must fit in u32, got " ++ (← Text.decimal size))

def ofParts (address digest : Bytes) (size : Int) : Except Misfit BlobCommitment :=
  match Bytes32.ofBytes? address, Bytes32.ofBytes? digest with
  | none, _ => .error (.addressLength address.length)
  | some _, none => .error (.digestLength digest.length)
  | some a, some d =>
      if 0 ≤ size ∧ size < UInt32.size then .ok ⟨a, d, UInt32.ofNat size.toNat⟩
      else .error (.sizeRange size)

/-- Why there is no commitment to a blob. -/
inductive Fault where
  | chunk (fault : Chunk.Fault)
  | misfit (misfit : Misfit)
deriving DecidableEq

def digestOf (s : Settings) (blob : Bytes) : Except Chunk.Fault Bytes32 :=
  foldChunks s (Chunk.split s.chunkSize s.chunkSize_pos blob)

/-- The commitment to a blob at an address, `from_blob` [SPEC_FULL 7.5]. -/
def ofBlob (s : Settings) (address blob : Bytes) : Except Fault BlobCommitment :=
  match digestOf s blob with
  | .error fault => .error (.chunk fault)
  | .ok digest => (ofParts address digest.bytes blob.length).mapError .misfit

/-- The byte string that is hashed for the account of a blob. -/
def leafPreimage (c : BlobCommitment) : Bytes :=
  c.address.bytes ++ c.digest.bytes ++ littleEndian 4 c.size.toNat

/-- The leaf of the account of a blob, `account_leaf` [SPEC_FULL 7.5]. -/
def leaf (s : Settings) (c : BlobCommitment) : Bytes32 := s.digest c.leafPreimage

def checkName : String := "blob_digest"

/-- Checks that a blob is the one committed to, `verify_blob` [SPEC_FULL 7.5]. -/
def verify (s : Settings) (c : BlobCommitment) (blob : Bytes) : Verdict :=
  match digestOf s blob with
  | .error _ =>
      .rejected .blobDigest Code.emptyInput "Cannot verify an empty blob" [] checkName
  | .ok digest =>
      if blob.length ≠ c.size.toNat then
        .rejected .blobDigest Code.hashMismatch
          ("Blob size " ++ toString blob.length ++ " does not match committed size "
            ++ toString c.size.toNat)
          [("expected_size", .int c.size.toNat), ("actual_size", .int blob.length)] checkName
      else if digest ≠ c.digest then
        .rejected .blobDigest Code.hashMismatch
          "Recomputed blob digest does not match the committed digest"
          [("expected", .text c.digest.hex), ("actual", .text digest.hex)] checkName
      else
        .accepted [.passed checkName (some .blobDigest) "Blob bytes match the committed digest"
          [("address", .text c.address.hex), ("blob_size", .int c.size.toNat)]]

end BlobCommitment

end SlotEvidence
