/-
Module: SlotEvidence.Proofs.Blob.Binding
Purpose: A commitment binds the bytes of a blob.  Every blob with at least one byte and a length of
  four bytes has a commitment that accepts it.  What a commitment accepts, whoever made it, has one
  length, and of one length there is only one blob that it accepts, unless two byte strings that are
  hashed for two of them have one digest.
Trusted boundary: none
Main exports: BlobCommitment.length_eq_of_accepted, BlobCommitment.eq_or_collision_of_accepted,
  BlobCommitment.commitments_bind_bytes
-/
import SlotEvidence.Proofs.Blob

namespace SlotEvidence

namespace BlobCommitment

variable {s : Settings} {c : BlobCommitment}

/-- The commitment that is made of a blob accepts it. -/
theorem verify_of_ofBlob {address blob : Bytes} (h : ofBlob s address blob = .ok c) :
    (c.verify s blob).ok = true := by
  obtain ⟨-, hdigest, hsize⟩ := ofBlob_eq_ok_iff.1 h
  exact verify_ok_iff.2 ⟨hdigest, hsize.symm⟩

/-- Blobs that are accepted for one commitment have one length. -/
theorem length_eq_of_accepted {x y : Bytes} (hx : (c.verify s x).ok = true)
    (hy : (c.verify s y).ok = true) : x.length = y.length :=
  (verify_ok_iff.1 hx).2.trans (verify_ok_iff.1 hy).2.symm

/-- Blobs that are accepted for one commitment are equal, or their folds collide.  Their equal
lengths give equally many chunks, so that equal digests can be taken back chunk by chunk. -/
theorem eq_or_collision_of_accepted {x y : Bytes} (hx : (c.verify s x).ok = true)
    (hy : (c.verify s y).ok = true) :
    x = y ∨ Collision s (blobPreimages s x ++ blobPreimages s y) := by
  refine Classical.or_iff_not_imp_right.2 fun hsafe => ?_
  obtain ⟨hxDigest, -⟩ := verify_ok_iff.1 hx
  obtain ⟨hyDigest, -⟩ := verify_ok_iff.1 hy
  exact eq_of_digestOf_eq hsafe (length_eq_of_accepted hx hy) (List.subset_append_left _ _)
    (List.subset_append_right _ _) hxDigest hyDigest

/-- Every blob that has a byte and whose length fits in four bytes gets a commitment at every
address, and that commitment accepts it.  Any two blobs that a commitment accepts, however it was
made, are equal, unless two different byte strings that are hashed while they are folded have one
digest.  So what differs from an accepted blob is refused, whatever was done to its bytes: if their
number has changed without any exception, else unless the two folds collide. -/
theorem commitments_bind_bytes (s : Settings) :
    (∀ (address : Bytes32) (blob : Bytes), blob ≠ [] → blob.length < UInt32.size →
      ∃ c, ofBlob s address.bytes blob = .ok c ∧ (c.verify s blob).ok = true) ∧
    (∀ (c : BlobCommitment) (x y : Bytes), (c.verify s x).ok = true → (c.verify s y).ok = true →
      x = y ∨ Collision s (blobPreimages s x ++ blobPreimages s y)) ∧
    ∀ (c : BlobCommitment) (x y : Bytes), (c.verify s x).ok = true → y ≠ x →
      (c.verify s y).ok = false ∨
        y.length = x.length ∧ Collision s (blobPreimages s x ++ blobPreimages s y) := by
  refine ⟨?_, fun _ _ _ => eq_or_collision_of_accepted, ?_⟩
  · intro address blob hne hsize
    obtain ⟨c, hc⟩ := exists_ofBlob address hne hsize
    exact ⟨c, hc, verify_of_ofBlob hc⟩
  · intro c x y hx hne
    cases hy : (c.verify s y).ok with
    | false => exact .inl rfl
    | true =>
        have hcollision := (eq_or_collision_of_accepted hx hy).resolve_left (Ne.symm hne)
        exact .inr ⟨length_eq_of_accepted hy hx, hcollision⟩

/-- Settings that cut blobs into pairs of bytes. -/
def pairSettings : Settings :=
  { Settings.standard with chunkSize := 2, chunkSize_pos := by decide }

/-- A blob of two pairs and a single byte. -/
def fiveBytes : Bytes := [1, 2, 3, 4, 5]

/-- The commitment to five bytes refuses the first four of them.  It refuses them in another order,
unless two of the chunks with the digests before them collide. -/
theorem five_bytes_bound :
    ∃ c, ofBlob pairSettings Bytes32.zero.bytes fiveBytes = .ok c ∧
      (c.verify pairSettings fiveBytes).ok = true ∧
      (c.verify pairSettings [1, 2, 3, 4]).ok = false ∧
      ((c.verify pairSettings [2, 1, 3, 4, 5]).ok = false ∨
        Collision pairSettings (blobPreimages pairSettings fiveBytes ++
          blobPreimages pairSettings [2, 1, 3, 4, 5])) := by
  obtain ⟨hmade, -, hrefused⟩ := commitments_bind_bytes pairSettings
  obtain ⟨c, hc, hok⟩ := hmade .zero fiveBytes (by decide) (by decide)
  refine ⟨c, hc, hok, ?_, ?_⟩
  · refine (hrefused c fiveBytes [1, 2, 3, 4] hok (by decide)).resolve_right ?_
    rintro ⟨hlength, -⟩
    cases hlength
  · exact (hrefused c fiveBytes [2, 1, 3, 4, 5] hok (by decide)).imp_right fun h => h.2

end BlobCommitment

end SlotEvidence
