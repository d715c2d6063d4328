/-
Module: SlotEvidence.Proofs.Bank
Purpose: The parts of a bank hash are read back from the byte string that is hashed for them, since
  each has a fixed width, and the checks of a bank hash decide what they say.
Trusted boundary: none
Main exports: Bank.preimage_inj, Bank.ofParts_bytes, Bank.parts_of_ofParts,
  Bank.verifyBlockhash_ok_iff, Bank.verify_ok_iff, Bank.verifyBlockhash_staged,
  Bank.verify_staged, Bank.eq_of_hash_eq
-/
import SlotEvidence.Bank
import SlotEvidence.Proofs.Bytes
import SlotEvidence.Proofs.HashBreak
import SlotEvidence.Proofs.Outcome
import SlotEvidence.Proofs.Verdict

namespace SlotEvidence

namespace Bank

/-- The parts of a bank hash are known by the byte string that is hashed. -/
theorem preimage_inj {a b : Bank} (h : a.preimage = b.preimage) : a = b := by
  have hwidth (x y : Bytes32) : x.bytes.length = y.bytes.length := by
    rw [x.length_bytes, y.length_bytes]
  simp only [preimage, List.append_assoc] at h
  rcases List.append_inj h (hwidth _ _) with ⟨hparent, h⟩
  rcases List.append_inj h (hwidth _ _) with ⟨hdelta, h⟩
  rcases List.append_inj h (by simp) with ⟨hcount, hblockhash⟩
  have hcount := littleEndian_inj a.signatureCount.toNat_lt b.signatureCount.toNat_lt hcount
  cases a
  cases b
  simp only [mk.injEq]
  exact ⟨Bytes32.ext hparent, Bytes32.ext hdelta, UInt64.toNat_inj.1 hcount,
    Bytes32.ext hblockhash⟩

/-- The parts of a bank hash make it up. -/
theorem ofParts_bytes (b : Bank) :
    ofParts b.parent.bytes b.accountsDelta.bytes b.signatureCount.toNat b.blockhash.bytes =
      .ok b := by
  have hpart : ∀ (name : String) (x : Bytes32), part name x.bytes = .ok x := by
    intro name x
    rw [part, Bytes32.ofBytes?_bytes]
  have hcount : (0 : Int) ≤ b.signatureCount.toNat ∧
      (b.signatureCount.toNat : Int) < UInt64.size :=
    ⟨Int.natCast_nonneg _, Int.ofNat_lt.2 b.signatureCount.toNat_lt⟩
  simp only [ofParts, hpart, bind, Except.bind]
  rw [if_pos hcount, Int.toNat_natCast, UInt64.ofNat_toNat]

/-- Parts of the right lengths and size make up a bank hash. -/
theorem exists_ofParts {parent accountsDelta blockhash : Bytes} {signatureCount : Nat}
    (hparent : parent.length = hashLength) (hdelta : accountsDelta.length = hashLength)
    (hcount : signatureCount < UInt64.size) (hblockhash : blockhash.length = hashLength) :
    ∃ b, ofParts parent accountsDelta signatureCount blockhash = .ok b := by
  have hmade := ofParts_bytes ⟨⟨parent, hparent⟩, ⟨accountsDelta, hdelta⟩,
    UInt64.ofNat signatureCount, ⟨blockhash, hblockhash⟩⟩
  rw [UInt64.toNat_ofNat_of_lt' hcount] at hmade
  exact ⟨_, hmade⟩

/-- A part that was read has the bytes that it was read from. -/
theorem bytes_of_part {name : String} {bytes : Bytes} {x : Bytes32} (h : part name bytes = .ok x) :
    bytes = x.bytes := by
  unfold part at h
  split at h
  · rename_i hbytes
    cases h
    exact (Bytes32.ofBytes?_eq_some_iff.1 hbytes).symm
  · cases h

/-- Only the parts of a bank hash make it up. -/
theorem parts_of_ofParts {parent accountsDelta blockhash : Bytes} {signatureCount : Int} {b : Bank}
    (h : ofParts parent accountsDelta signatureCount blockhash = .ok b) :
    parent = b.parent.bytes ∧ accountsDelta = b.accountsDelta.bytes ∧
      signatureCount = b.signatureCount.toNat ∧ blockhash = b.blockhash.bytes := by
  simp only [ofParts, bind_eq_ok] at h
  obtain ⟨x, hx, y, hy, z, hz, h⟩ := h
  split at h
  · rename_i hcount
    cases h
    obtain ⟨n, rfl⟩ := Int.eq_ofNat_of_zero_le hcount.1
    refine ⟨bytes_of_part hx, bytes_of_part hy, ?_, bytes_of_part hz⟩
    rw [Int.toNat_natCast, UInt64.toNat_ofNat_of_lt' (Int.ofNat_lt.1 hcount.2)]
  · cases h

/-- A blockhash is accepted just when it is the one among the parts. -/
theorem verifyBlockhash_ok_iff {b : Bank} {blockhash : Bytes} :
    (b.verifyBlockhash blockhash).ok = true ↔ b.blockhash.bytes = blockhash := by
  unfold verifyBlockhash
  split <;> simp_all [Verdict.rejected, Verdict.accepted]

/-- A bank hash is accepted just when it is the hash of the four parts. -/
theorem verify_ok_iff {s : Settings} {b : Bank} {expected : Bytes} :
    (b.verify s expected).ok = true ↔ (b.hash s).bytes = expected := by
  unfold verify
  split <;> simp_all [Verdict.rejected, Verdict.accepted]

theorem verifyBlockhash_staged (b : Bank) (blockhash : Bytes) :
    Verdict.Staged [blockhashCheckName] (b.verifyBlockhash blockhash) := by
  unfold verifyBlockhash
  split
  · exact Verdict.staged_rejected (List.cons_ne_nil _ _) (by simp [Members.names])
  · exact Verdict.staged_passed _ _ _ _

theorem verify_staged (s : Settings) (b : Bank) (expected : Bytes) :
    Verdict.Staged [checkName] (b.verify s expected) := by
  unfold verify
  split
  · exact Verdict.staged_rejected (List.cons_ne_nil _ _) (by simp [Members.names])
  · exact Verdict.staged_passed _ _ _ _

/-- Without a break, the parts of a bank hash are known by the bank hash. -/
theorem eq_of_hash_eq {s : Settings} {groups others : List Bytes}
    (hsafe : ¬ HashBreak s groups others) {a b : Bank} (ha : a.preimage ∈ groups ++ others)
    (hb : b.preimage ∈ groups ++ others) (h : a.hash s = b.hash s) : a = b := by
  apply preimage_inj
  exact eq_of_digest_eq hsafe ha hb h

end Bank

end SlotEvidence
