/-
Module: SlotEvidence.Proofs.Blob
Purpose: The digest of a blob folds its chunks.  Two blobs of one length have as many chunks, and
  going back from the last chunk their equal digests make all their chunks equal, unless two byte
  strings that were hashed on the way have one digest.  The leaf of an account fixes the address,
  the digest and the size.
Trusted boundary: none
Main exports: blobPreimages, foldPayloads_inj, BlobCommitment.digestOf_eq_ok_iff,
  BlobCommitment.eq_of_digestOf_eq, BlobCommitment.leafPreimage_inj,
  BlobCommitment.ofBlob_eq_ok_iff, BlobCommitment.exists_ofBlob, BlobCommitment.verify_ok_iff,
  BlobCommitment.verify_staged
-/
import SlotEvidence.Blob.Commitment
import SlotEvidence.Proofs.Bytes
import SlotEvidence.Proofs.HashBreak
import SlotEvidence.Proofs.Outcome
import SlotEvidence.Proofs.Verdict

namespace SlotEvidence

/-! ### Chunks -/

namespace Chunk

@[simp] theorem map_payload_number (index : Nat) (payloads : List Bytes) :
    (number index payloads).map (·.payload) = payloads := by
  induction payloads generalizing index with
  | nil => rfl
  | cons _ _ ih => simp [number, ih]

@[simp] theorem length_number (index : Nat) (payloads : List Bytes) :
    (number index payloads).length = payloads.length := by
  induction payloads generalizing index with
  | nil => rfl
  | cons _ _ ih => simp [number, ih]

theorem map_index_number (index : Nat) (payloads : List Bytes) :
    (number index payloads).map (·.index) = List.range' index payloads.length := by
  induction payloads generalizing index with
  | nil => rfl
  | cons _ _ ih => simp [number, ih, List.range'_succ]

/-- Chunks with consecutive numbers are known by the first number and the payloads. -/
theorem number_map_payload {index : Nat} {chunks : List Chunk}
    (h : chunks.map (·.index) = List.range' index chunks.length) :
    number index (chunks.map (·.payload)) = chunks := by
  induction chunks generalizing index with
  | nil => rfl
  | cons chunk rest ih =>
      rw [List.map_cons, List.length_cons, List.range'_succ] at h
      obtain ⟨rfl, hrest⟩ := List.cons.inj h
      rw [List.map_cons, number, ih hrest]

end Chunk

/-- Chunks with consecutive numbers are in place. -/
theorem Accumulator.fault?_number (position index : Nat) (payloads : List Bytes) :
    fault? position index (Chunk.number index payloads) = none := by
  induction payloads generalizing position index with
  | nil => rfl
  | cons _ _ ih => simp [Chunk.number, fault?, ih]

/-! ### The fold

What is hashed for a chunk is the digest so far, if there is one, and the chunk.  If the folds of
two blobs with one number of chunks agree, so does what was hashed for them, from the last chunk
back to the first, unless there is a collision. -/

/-- The byte string that is hashed for a payload after a digest so far. -/
def foldPreimage : Option Bytes32 → Bytes → Bytes
  | none, payload => payload
  | some digest, payload => digest.bytes ++ payload

/-- The byte strings that are hashed when payloads are folded into the digest so far. -/
def foldPreimages (s : Settings) : Option Bytes32 → List Bytes → List Bytes
  | _, [] => []
  | digest?, payload :: rest =>
      foldPreimage digest? payload ::
        foldPreimages s (some (s.digest (foldPreimage digest? payload))) rest

/-- The byte strings that are hashed for the digest of a blob. -/
def blobPreimages (s : Settings) (blob : Bytes) : List Bytes :=
  foldPreimages s none (slices s.chunkSize s.chunkSize_pos blob)

theorem foldPayloads_cons (s : Settings) (digest? : Option Bytes32) (payload : Bytes)
    (rest : List Bytes) :
    foldPayloads s digest? (payload :: rest) =
      foldPayloads s (some (s.digest (foldPreimage digest? payload))) rest := by
  cases digest? <;> simp [foldPayloads, foldPreimage, Settings.digestParts]

/-- What is hashed for a chunk fixes the digest before it and the chunk, if it is known whether
there is a digest before it: a digest has always the same length. -/
theorem foldPreimage_inj {a b : Option Bytes32} (hsome : a.isSome = b.isSome) {x y : Bytes}
    (h : foldPreimage a x = foldPreimage b y) : a = b ∧ x = y := by
  cases a with
  | none =>
      cases b with
      | none => exact ⟨rfl, h⟩
      | some _ => cases hsome
  | some a =>
      cases b with
      | none => cases hsome
      | some b =>
          rcases List.append_inj h (by rw [a.length_bytes, b.length_bytes]) with ⟨hbytes, rfl⟩
          obtain rfl := Bytes32.ext hbytes
          exact ⟨rfl, rfl⟩

/-- Without a collision, equally many payloads are known by their digest, and so is the digest that
they were folded into. -/
theorem foldPayloads_inj {s : Settings} {hashed : List Bytes} (hsafe : ¬ Collision s hashed)
    {a b : Option Bytes32} (hsome : a.isSome = b.isSome) {xs ys : List Bytes}
    (hlength : xs.length = ys.length) (hxs : foldPreimages s a xs ⊆ hashed)
    (hys : foldPreimages s b ys ⊆ hashed) (h : foldPayloads s a xs = foldPayloads s b ys) :
    a = b ∧ xs = ys := by
  induction xs generalizing a b ys with
  | nil =>
      obtain rfl := List.length_eq_zero_iff.1 hlength.symm
      exact ⟨h, rfl⟩
  | cons x xs ih =>
      cases ys with
      | nil => cases hlength
      | cons y ys =>
          rw [foldPayloads_cons, foldPayloads_cons] at h
          rcases List.cons_subset.1 hxs with ⟨hx, hxs⟩
          rcases List.cons_subset.1 hys with ⟨hy, hys⟩
          -- the later payloads fix the digest that they are folded into
          have hstarted : (some (s.digest (foldPreimage a x))).isSome =
              (some (s.digest (foldPreimage b y))).isSome := rfl
          obtain ⟨hdigest, rfl⟩ := ih hstarted (Nat.succ.inj hlength) hxs hys h
          have hpreimage := eq_of_not_collision hsafe hx hy (Option.some.inj hdigest)
          obtain ⟨rfl, rfl⟩ := foldPreimage_inj hsome hpreimage
          exact ⟨rfl, rfl⟩

/-! ### Commitments

The digest and the size are taken from the bytes.  The size has four bytes, so that a blob that is
too long has a digest and no commitment. -/

namespace BlobCommitment

variable {s : Settings}

/-- The digest of a blob is the fold of its slices; no bytes have none. -/
theorem digestOf_eq_ok_iff {blob : Bytes} {digest : Bytes32} :
    digestOf s blob = .ok digest ↔
      foldPayloads s none (slices s.chunkSize s.chunkSize_pos blob) = some digest := by
  simp only [digestOf, foldChunks, bind_eq_ok, Accumulator.update, Chunk.split,
    Accumulator.fault?_number, Chunk.map_payload_number, Except.ok.injEq, exists_eq_left',
    Accumulator.digest]
  cases foldPayloads s none (slices s.chunkSize s.chunkSize_pos blob) with
  | none => simp
  | some _ => simp

/-- Without a collision, blobs of one length are known by their digests. -/
theorem eq_of_digestOf_eq {hashed : List Bytes} (hsafe : ¬ Collision s hashed) {x y : Bytes}
    (hlength : x.length = y.length) (hx : blobPreimages s x ⊆ hashed)
    (hy : blobPreimages s y ⊆ hashed) {digest : Bytes32} (hxDigest : digestOf s x = .ok digest)
    (hyDigest : digestOf s y = .ok digest) : x = y := by
  rw [digestOf_eq_ok_iff] at hxDigest hyDigest
  have hcount : (slices s.chunkSize s.chunkSize_pos x).length =
      (slices s.chunkSize s.chunkSize_pos y).length := by
    rw [length_slices, length_slices, hlength]
  have hslices := (foldPayloads_inj hsafe rfl hcount hx hy (hxDigest.trans hyDigest.symm)).2
  rw [← flatten_slices s.chunkSize s.chunkSize_pos x, hslices, flatten_slices]

/-- A commitment is known by the byte string that is hashed for its account. -/
theorem leafPreimage_inj {a b : BlobCommitment} (h : a.leafPreimage = b.leafPreimage) : a = b := by
  have hwidth (x y : Bytes32) : x.bytes.length = y.bytes.length := by
    rw [x.length_bytes, y.length_bytes]
  simp only [leafPreimage, List.append_assoc] at h
  rcases List.append_inj h (hwidth _ _) with ⟨haddress, h⟩
  rcases List.append_inj h (hwidth _ _) with ⟨hdigest, hsize⟩
  have hsize := littleEndian_inj a.size.toNat_lt b.size.toNat_lt hsize
  cases a
  cases b
  simp only [mk.injEq]
  exact ⟨Bytes32.ext haddress, Bytes32.ext hdigest, UInt32.toNat_inj.1 hsize⟩

/-- Parts make a commitment just when they are the parts of one: two keys, and a size that fits in
four bytes. -/
theorem ofParts_eq_ok_iff {address digest : Bytes} {size : Nat} {c : BlobCommitment} :
    ofParts address digest size = .ok c ↔
      c.address.bytes = address ∧ c.digest.bytes = digest ∧ c.size.toNat = size := by
  constructor
  · intro h
    unfold ofParts at h
    split at h
    · cases h
    · cases h
    · rename_i a d ha hd
      split at h
      · rename_i hsize
        cases h
        refine ⟨Bytes32.ofBytes?_eq_some_iff.1 ha, Bytes32.ofBytes?_eq_some_iff.1 hd, ?_⟩
        exact UInt32.toNat_ofNat_of_lt' (Int.ofNat_lt.1 hsize.2)
      · cases h
  · rintro ⟨rfl, rfl, rfl⟩
    have hsize : (0 : Int) ≤ c.size.toNat ∧ (c.size.toNat : Int) < UInt32.size :=
      ⟨Int.natCast_nonneg _, Int.ofNat_lt.2 c.size.toNat_lt⟩
    simp only [ofParts, Bytes32.ofBytes?_bytes, if_pos hsize, Int.toNat_natCast,
      UInt32.ofNat_toNat]

/-- Parts of the right lengths and size make a commitment. -/
theorem exists_ofParts {address digest : Bytes} {size : Nat}
    (haddress : address.length = hashLength) (hdigest : digest.length = hashLength) (hsize : size < UInt32.size) :
    ∃ c, ofParts address digest size = .ok c :=
  ⟨⟨⟨address, haddress⟩, ⟨digest, hdigest⟩, UInt32.ofNat size⟩,
    ofParts_eq_ok_iff.2 ⟨rfl, rfl, UInt32.toNat_ofNat_of_lt' hsize⟩⟩

/-- The commitment to a blob at an address has just these parts. -/
theorem ofBlob_eq_ok_iff {address blob : Bytes} {c : BlobCommitment} :
    ofBlob s address blob = .ok c ↔
      c.address.bytes = address ∧ digestOf s blob = .ok c.digest ∧ c.size.toNat = blob.length := by
  unfold ofBlob
  cases digestOf s blob with
  | error _ => simp
  | ok digest =>
      have hdigest : c.digest.bytes = digest.bytes ↔ digest = c.digest := by
        constructor
        · intro h
          exact Bytes32.ext h.symm
        · rintro rfl
          rfl
      simp only [mapError_eq_ok, ofParts_eq_ok_iff, hdigest, Except.ok.injEq]

/-- Folding payloads into a digest gives a digest. -/
theorem exists_foldPayloads (digest : Bytes32) (payloads : List Bytes) :
    ∃ last, foldPayloads s (some digest) payloads = some last := by
  induction payloads generalizing digest with
  | nil => exact ⟨digest, rfl⟩
  | cons payload rest ih =>
      rw [foldPayloads_cons]
      exact ih _

/-- Every blob that has a byte has a digest. -/
theorem exists_digestOf {blob : Bytes} (h : blob ≠ []) :
    ∃ digest, digestOf s blob = .ok digest := by
  obtain ⟨digest, hdigest⟩ := exists_foldPayloads
    (s.digest (foldPreimage none (blob.take s.chunkSize)))
    (slices s.chunkSize s.chunkSize_pos (blob.drop s.chunkSize))
  refine ⟨digest, digestOf_eq_ok_iff.2 ?_⟩
  rw [slices_of_ne_nil _ _ h, foldPayloads_cons, hdigest]

/-- There is a commitment at every address to every blob that has a byte and whose length fits in
four bytes. -/
theorem exists_ofBlob (address : Bytes32) {blob : Bytes} (h : blob ≠ [])
    (hsize : blob.length < UInt32.size) :
    ∃ c : BlobCommitment, ofBlob s address.bytes blob = .ok c := by
  obtain ⟨digest, hdigest⟩ := exists_digestOf h
  refine ⟨⟨address, digest, UInt32.ofNat blob.length⟩, ofBlob_eq_ok_iff.2 ⟨rfl, hdigest, ?_⟩⟩
  exact UInt32.toNat_ofNat_of_lt' hsize

/-- A blob is accepted just when it has the digest and the size committed to. -/
theorem verify_ok_iff {c : BlobCommitment} {blob : Bytes} :
    (c.verify s blob).ok = true ↔ digestOf s blob = .ok c.digest ∧ blob.length = c.size.toNat := by
  unfold verify
  cases digestOf s blob with
  | error _ => simp [Verdict.rejected]
  | ok digest =>
      by_cases hsize : blob.length = c.size.toNat
      · by_cases hdigest : digest = c.digest
        · simp [hsize, hdigest]
        · simp [hsize, hdigest, Verdict.rejected]
      · simp [hsize, Verdict.rejected]

theorem verify_staged (c : BlobCommitment) (blob : Bytes) :
    Verdict.Staged [checkName] (c.verify s blob) := by
  unfold verify
  split
  · exact Verdict.staged_rejected (List.cons_ne_nil _ _) (by simp [Members.names])
  · split
    · exact Verdict.staged_rejected (List.cons_ne_nil _ _) (by simp [Members.names])
    · split
      · exact Verdict.staged_rejected (List.cons_ne_nil _ _) (by simp [Members.names])
      · exact Verdict.staged_passed _ _ _ _

end BlobCommitment

end SlotEvidence
