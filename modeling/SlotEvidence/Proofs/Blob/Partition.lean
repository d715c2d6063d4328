/-
Module: SlotEvidence.Proofs.Blob.Partition
Purpose: The chunks of a blob are a partition of it: they are numbered from zero, together they are
  the blob, and all of them have the size asked for, except that the last one may be shorter, but
  not empty.  A blob has one partition for each size, and where that cuts depends on the length of
  the blob alone.
Trusted boundary: none
Main exports: Chunk.Partition, Chunk.partition_split, Chunk.Partition.eq_split,
  Chunk.split?_eq_ok_iff, Chunk.offset, Chunk.Partition.offset_eq,
  Chunk.Partition.foldChunks_eq_error_iff, Chunk.blob_partitioned
-/
import Mathlib.Algebra.Order.Floor.Div
import Mathlib.Algebra.Order.Ring.Nat
import SlotEvidence.Proofs.Blob.Accumulator

namespace SlotEvidence

namespace Chunk

/-! ### Partitions

A partition numbers its chunks from zero on, fills all of them but the last, leaves none empty and
loses no byte.  There is just one for each blob and size. -/

/-- Chunks are the partition of a blob into payloads of a size. -/
structure Partition (size : Nat) (blob : Bytes) (chunks : List Chunk) : Prop where
  /-- The size goes so often into the length of the blob, rounded up. -/
  count : chunks.length = blob.length ⌈/⌉ size
  numbers : chunks.map (·.index) = List.range chunks.length
  joined : (chunks.map (·.payload)).flatten = blob
  sizes : FullButLast size (chunks.map (·.payload))

variable {size : Nat} {blob : Bytes} {chunks : List Chunk}

/-- A blob is cut into a partition of it. -/
theorem partition_split (positive : 0 < size) (blob : Bytes) :
    Partition size blob (split size positive blob) where
  count := by rw [split, length_number, length_slices, Nat.ceilDiv_eq_add_pred_div]
  numbers := by rw [split, length_number, map_index_number, List.range_eq_range']
  joined := by rw [split, map_payload_number, flatten_slices]
  sizes := by
    rw [split, map_payload_number]
    exact fullButLast_slices positive blob

/-- A blob has no other partition of the size. -/
theorem Partition.eq_split (positive : 0 < size) (h : Partition size blob chunks) :
    chunks = split size positive blob := by
  -- the sizes leave no choice for the payloads, and their order none for the numbers
  have hslices : slices size positive blob = chunks.map (·.payload) :=
    (slices_eq_iff positive).2 ⟨h.joined, h.sizes⟩
  have hnumbers : chunks.map (·.index) = List.range' 0 chunks.length := by
    rw [h.numbers, List.range_eq_range']
  rw [split, hslices, number_map_payload hnumbers]

/-- A positive size splits a blob; no other size is asked for in what follows. -/
theorem split?_natCast (positive : 0 < size) (blob : Bytes) :
    split? size blob = .ok (split size positive blob) :=
  dif_pos positive

/-- What a blob is cut into is its partition, and only a positive size cuts it. -/
theorem split?_eq_ok_iff {size : Int} :
    split? size blob = .ok chunks ↔
      ∃ width : Nat, 0 < width ∧ size = width ∧ Partition width blob chunks := by
  constructor
  · intro h
    unfold split? at h
    split at h
    · rename_i hpos
      cases h
      exact ⟨size.toNat, hpos, by omega, partition_split hpos blob⟩
    · cases h
  · rintro ⟨width, hpos, rfl, h⟩
    rw [split?_natCast hpos, h.eq_split hpos]

/-- Only an empty blob has no chunk. -/
theorem Partition.eq_nil_iff (positive : 0 < size) (h : Partition size blob chunks) :
    chunks = [] ↔ blob = [] := by
  constructor
  · rintro rfl
    exact h.joined.symm
  · rintro rfl
    rw [h.eq_split positive, split, slices_nil]
    rfl

/-! ### Offsets

A chunk begins where the chunks before it end. -/

/-- The number of bytes in the first chunks, so the place in a blob where the next one begins. -/
def offset (chunks : List Chunk) (number : Nat) : Nat :=
  ((chunks.take number).flatMap (·.payload)).length

/-- A chunk begins at a multiple of the size, and the blob ends behind the last one. -/
theorem Partition.offset_eq (positive : 0 < size) (h : Partition size blob chunks) (number : Nat) :
    offset chunks number = min (number * size) blob.length := by
  rw [offset, List.flatMap_def, List.map_take, h.sizes.length_flatten_take positive, h.joined]

/-! ### Folding a partition

The chunks of a partition pass every check of the fold, so that only a blob without bytes has no
digest. -/

/-- The fold of a partition fails just when the blob is empty. -/
theorem Partition.foldChunks_eq_error_iff {s : Settings} (positive : 0 < size)
    (h : Partition size blob chunks) {fault : Fault} :
    foldChunks s chunks = .error fault ↔ blob = [] ∧ fault = .empty := by
  rw [SlotEvidence.foldChunks_eq_error_iff h.numbers, h.eq_nil_iff positive]

/-- Every positive size cuts every blob into chunks.  They are as many as the size goes into the
length of the blob, rounded up; they are numbered from zero; together they are the blob; and each of
them has the size, except that the last one may be shorter, but not empty.  No other chunks are like
this.  Their fold fails for the empty blob alone, under any settings.  Blobs of one length are cut
at the same places, the multiples of the size. -/
theorem blob_partitioned {size : Nat} (positive : 0 < size) :
    (∀ blob : Bytes, ∃ chunks, split? size blob = .ok chunks ∧ Partition size blob chunks ∧
      (∀ others, Partition size blob others → others = chunks) ∧
      ∀ (s : Settings) (fault : Fault),
        foldChunks s chunks = .error fault ↔ blob = [] ∧ fault = .empty) ∧
    ∀ (x y : Bytes) (xs ys : List Chunk), x.length = y.length → split? size x = .ok xs →
      split? size y = .ok ys → ∀ number, offset xs number = min (number * size) x.length ∧
        offset ys number = offset xs number := by
  constructor
  · intro blob
    have hpartition := partition_split positive blob
    refine ⟨split size positive blob, split?_natCast positive blob, hpartition, ?_, ?_⟩
    · intro others hothers
      exact hothers.eq_split positive
    · intro s fault
      exact hpartition.foldChunks_eq_error_iff positive
  · intro x y xs ys hlength hxs hys number
    obtain ⟨_, -, hxWidth, hx⟩ := split?_eq_ok_iff.1 hxs
    obtain ⟨_, -, hyWidth, hy⟩ := split?_eq_ok_iff.1 hys
    obtain rfl := Int.ofNat.inj hxWidth
    obtain rfl := Int.ofNat.inj hyWidth
    rw [hx.offset_eq positive, hy.offset_eq positive, hlength]
    exact ⟨rfl, rfl⟩

/-- A blob of seven bytes. -/
def sevenBytes : Bytes := [97, 98, 99, 100, 101, 102, 103]

/-- Seven bytes in chunks of three, the last of which holds one byte. -/
def sevenInThrees : List Chunk := [⟨0, [97, 98, 99]⟩, ⟨1, [100, 101, 102]⟩, ⟨2, [103]⟩]

theorem partition_sevenInThrees : Partition 3 sevenBytes sevenInThrees where
  count := by decide
  numbers := by decide
  joined := by decide
  sizes := ⟨by decide, by decide⟩

/-- Seven bytes are cut into two chunks of three and one of one, which have a digest.  Seven other
bytes are cut behind the third and the sixth as well. -/
theorem sevenBytes_partitioned :
    0 < 3 ∧ split? 3 sevenBytes = .ok sevenInThrees ∧
    (∀ fault, foldChunks .standard sevenInThrees ≠ .error fault) ∧
    sevenBytes.length = sevenBytes.reverse.length ∧
    ∃ chunks, split? 3 sevenBytes.reverse = .ok chunks ∧
      offset chunks 1 = 3 ∧ offset chunks 2 = 6 ∧ offset chunks 3 = 7 := by
  have hpositive : 0 < 3 := by decide
  obtain ⟨hblobs, hoffsets⟩ := blob_partitioned hpositive
  obtain ⟨chunks, hchunks, -, honly, hfold⟩ := hblobs sevenBytes
  obtain rfl := honly sevenInThrees partition_sevenInThrees
  obtain ⟨others, hothers, -, -, -⟩ := hblobs sevenBytes.reverse
  have hlength : sevenBytes.length = sevenBytes.reverse.length := by decide
  have hsame := hoffsets sevenBytes sevenBytes.reverse _ others hlength hchunks hothers
  refine ⟨hpositive, hchunks, ?_, hlength, others, hothers, ?_, ?_, ?_⟩
  · intro fault hfault
    obtain ⟨hempty, -⟩ := (hfold .standard fault).1 hfault
    cases hempty
  · exact (hsame 1).2
  · exact (hsame 2).2
  · exact (hsame 3).2

end Chunk

end SlotEvidence
