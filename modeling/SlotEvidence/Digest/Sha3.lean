/-
Module: SlotEvidence.Digest.Sha3
Purpose: The hash function SHA3-256.
Trusted boundary: the published standard of the function, human-reviewed
Main exports: Digest.sha3_256
-/
import SlotEvidence.Bytes

namespace SlotEvidence

namespace Digest

namespace Sha3

/-- The twenty-five lanes of the permutation; the lane in column `x` of row `y` has the number
`x + 5 * y`. -/
abbrev Lanes := Vector UInt64 25

/-- The constants of the twenty-four rounds. -/
def roundConstants : List UInt64 :=
  [0x0000000000000001, 0x0000000000008082, 0x800000000000808a, 0x8000000080008000,
   0x000000000000808b, 0x0000000080000001, 0x8000000080008081, 0x8000000000008009,
   0x000000000000008a, 0x0000000000000088, 0x0000000080008009, 0x000000008000000a,
   0x000000008000808b, 0x800000000000008b, 0x8000000000008089, 0x8000000000008003,
   0x8000000000008002, 0x8000000000000080, 0x000000000000800a, 0x800000008000000a,
   0x8000000080008081, 0x8000000000008080, 0x0000000080000001, 0x8000000080008008]

/-- How far each lane is rotated, by its number. -/
def rotations : Lanes :=
  #v[0, 1, 62, 28, 27, 36, 44, 6, 55, 20, 3, 10, 43, 25, 39, 41, 45, 15, 21, 8, 18, 2, 61, 56, 14]

def rotateLeft (x : UInt64) (n : UInt64) : UInt64 := (x <<< n) ||| (x >>> ((64 - n) % 64))

/-- The exclusive or of each column. -/
def columns (s : Lanes) : Vector UInt64 5 :=
  Vector.ofFn fun x =>
    s[x.val] ^^^ s[x.val + 5] ^^^ s[x.val + 10] ^^^ s[x.val + 15] ^^^ s[x.val + 20]

/-- Mixes two neighbouring columns into each lane. -/
def mixColumns (s : Lanes) : Lanes :=
  let sums := columns s
  Vector.ofFn fun i => s[i.val] ^^^ sums[(i.val + 4) % 5] ^^^ rotateLeft sums[(i.val + 1) % 5] 1

/-- Rotates each lane and moves it to its new place: column `X` of row `Y` takes the lane in column
`X + 3 * Y` of row `X`. -/
def moveLanes (s : Lanes) : Lanes :=
  Vector.ofFn fun i =>
    let column := i.val % 5
    let row := i.val / 5
    let source := (column + 3 * row) % 5 + 5 * column
    rotateLeft (s.get ⟨source, by omega⟩) (rotations.get ⟨source, by omega⟩)

/-- Combines each lane with the next two in its row. -/
def combineRows (s : Lanes) : Lanes :=
  Vector.ofFn fun i =>
    let row := i.val / 5
    s[i.val] ^^^ (~~~(s.get ⟨(i.val + 1) % 5 + 5 * row, by omega⟩)
      &&& s.get ⟨(i.val + 2) % 5 + 5 * row, by omega⟩)

def round (s : Lanes) (constant : UInt64) : Lanes :=
  let t := combineRows (moveLanes (mixColumns s))
  t.set 0 (t[0] ^^^ constant)

def permute (s : Lanes) : Lanes := roundConstants.foldl round s

/-- Mixes one 136-byte block into the lanes. -/
def absorb (s : Lanes) (block : Bytes) : Lanes :=
  permute (Vector.ofFn fun i =>
    s[i.val] ^^^ UInt64.ofNat (ofLittleEndian ((block.drop (8 * i.val)).take 8)))

/-- The message followed by the bits 0110, zeros and a last one bit, so that its length is a
multiple of 136 bytes. -/
def pad (message : Bytes) : Bytes :=
  match 135 - message.length % 136 with
  | 0 => message ++ [0x86]
  | zeros + 1 => message ++ 0x06 :: List.replicate zeros 0 ++ [0x80]

/-- The bytes of the first four lanes. -/
def firstBytes (s : Lanes) : Bytes :=
  littleEndian 8 s[0].toNat ++ littleEndian 8 s[1].toNat
    ++ littleEndian 8 s[2].toNat ++ littleEndian 8 s[3].toNat

theorem length_firstBytes (s : Lanes) : (firstBytes s).length = hashLength := by
  simp [firstBytes, hashLength]

end Sha3

def sha3_256 (message : Bytes) : Bytes32 :=
  let final := (slices 136 (by decide) (Sha3.pad message)).foldl Sha3.absorb (Vector.replicate 25 0)
  ⟨Sha3.firstBytes final, Sha3.length_firstBytes final⟩

end Digest

end SlotEvidence
