/-
Module: SlotEvidence.Bank
Purpose: The four parts of a slot's bank hash, and their verification.
Specification: SPEC_FULL 7.3, BankHashProof (`verify_bank_hash`, `verify_blockhash`)
Trusted boundary: none
Main exports: Bank, Bank.ofParts, Bank.preimage, Bank.hash, Bank.verify, Bank.verifyBlockhash
-/
import SlotEvidence.Settings

namespace SlotEvidence

/-- The parts of the bank hash of a slot. -/
structure Bank where
  parent : Bytes32
  /-- The root of the tree of the accounts that changed in the slot. -/
  accountsDelta : Bytes32
  signatureCount : UInt64
  blockhash : Bytes32
deriving DecidableEq

namespace Bank

/-- Why given parts make no bank hash. -/
inductive Misfit where
  | partLength (name : String) (length : Nat)
  | signatureRange (count : Int)
deriving DecidableEq

def Misfit.message : Misfit → String
  | .partLength name length => s!"{name} must be 32 bytes, got {length}"
  | .signatureRange count =>
      Text.told (return "signature_count must fit in u64, got " ++ (← Text.decimal count))

/-- A part of 32 bytes. -/
def part (name : String) (bytes : Bytes) : Except Misfit Bytes32 :=
  match Bytes32.ofBytes? bytes with
  | some b => .ok b
  | none => .error (.partLength name bytes.length)

def ofParts (parent accountsDelta : Bytes) (signatureCount : Int) (blockhash : Bytes) :
    Except Misfit Bank := do
  let parent ← part "parent_bank_hash" parent
  let accountsDelta ← part "accounts_delta_hash" accountsDelta
  let blockhash ← part "blockhash" blockhash
  if 0 ≤ signatureCount ∧ signatureCount < UInt64.size then
    .ok ⟨parent, accountsDelta, UInt64.ofNat signatureCount.toNat, blockhash⟩
  else .error (.signatureRange signatureCount)

/-- The byte string that is hashed. -/
def preimage (b : Bank) : Bytes :=
  b.parent.bytes ++ b.accountsDelta.bytes ++ littleEndian 8 b.signatureCount.toNat
    ++ b.blockhash.bytes

def hash (s : Settings) (b : Bank) : Bytes32 := s.digest b.preimage

def checkName : String := "bank_hash"

def blockhashCheckName : String := "blockhash"

/-- Checks that the parts are those of the given block, `verify_blockhash` [SPEC_FULL 7.3]. -/
def verifyBlockhash (b : Bank) (blockhash : Bytes) : Verdict :=
  if b.blockhash.bytes ≠ blockhash then
    .rejected .bankHash Code.blockhashMismatch "Bank hash proof is for a different block"
      [("expected", .text (Hex.encode blockhash)), ("actual", .text b.blockhash.hex)]
      blockhashCheckName
  else
    .accepted [.passed blockhashCheckName (some .bankHash)
      "Bank hash proof commits to the expected blockhash"
      [("blockhash", .text (Hex.encode blockhash))]]

/-- Checks that the parts make the given bank hash, `verify_bank_hash` [SPEC_FULL 7.3]. -/
def verify (s : Settings) (b : Bank) (expected : Bytes) : Verdict :=
  if (b.hash s).bytes ≠ expected then
    .rejected .bankHash Code.hashMismatch
      "Recomputed bank hash does not match the expected bank hash"
      [("expected", .text (Hex.encode expected)), ("actual", .text (b.hash s).hex)] checkName
  else
    .accepted [.passed checkName (some .bankHash)
      "Bank hash components recompute to the expected bank hash"
      [("accounts_delta_hash", .text b.accountsDelta.hex)]]

end Bank

end SlotEvidence
