/-
Module: SlotEvidence.Digest.Blake2s
Purpose: The hash function BLAKE2s, without a key and with a 32-byte result.
Trusted boundary: the published standard of BLAKE2, human-reviewed
Main exports: Digest.blake2s
-/
import SlotEvidence.Bytes

namespace SlotEvidence

namespace Digest

namespace Blake2s

/-- The eight words of the chaining value. -/
abbrev Chain := Vector UInt32 8

/-- The sixteen words that one block is mixed in. -/
abbrev Work := Vector UInt32 16

def startWords : Chain :=
  #v[0x6a09e667, 0xbb67ae85, 0x3c6ef372, 0xa54ff53a, 0x510e527f, 0x9b05688c, 0x1f83d9ab, 0x5be0cd19]

/-- The chaining value before the first block: no key, a 32-byte result, sequential mode. -/
def start : Chain := startWords.set 0 (startWords[0] ^^^ 0x01010020)

/-- The order in which each of the ten rounds takes the words of the block. -/
def orders : List (List (Fin 16)) :=
  [[0, 1, 2, 3, 4, 5, 6, 7, 8, 9, 10, 11, 12, 13, 14, 15],
   [14, 10, 4, 8, 9, 15, 13, 6, 1, 12, 0, 2, 11, 7, 5, 3],
   [11, 8, 12, 0, 5, 2, 15, 13, 10, 14, 3, 6, 7, 1, 9, 4],
   [7, 9, 3, 1, 13, 12, 11, 14, 2, 6, 5, 10, 4, 0, 15, 8],
   [9, 0, 5, 7, 2, 4, 10, 15, 14, 1, 11, 12, 6, 8, 3, 13],
   [2, 12, 6, 10, 0, 11, 8, 3, 4, 13, 7, 5, 15, 14, 1, 9],
   [12, 5, 1, 15, 14, 13, 4, 10, 0, 7, 6, 3, 9, 2, 8, 11],
   [13, 11, 7, 14, 12, 1, 3, 9, 5, 0, 15, 4, 8, 6, 2, 10],
   [6, 15, 14, 9, 11, 3, 0, 8, 12, 2, 13, 7, 1, 4, 10, 5],
   [10, 2, 8, 4, 7, 6, 1, 5, 15, 11, 9, 14, 3, 12, 13, 0]]

/-- The four words that each of the eight mixing steps of a round works on: the columns, then the
diagonals. -/
def quarters : List (Fin 16 × Fin 16 × Fin 16 × Fin 16) :=
  [(0, 4, 8, 12), (1, 5, 9, 13), (2, 6, 10, 14), (3, 7, 11, 15),
   (0, 5, 10, 15), (1, 6, 11, 12), (2, 7, 8, 13), (3, 4, 9, 14)]

def rotateRight (x : UInt32) (n : UInt32) : UInt32 := (x >>> n) ||| (x <<< (32 - n))

/-- Mixes two message words into four words of the work vector. -/
def mix (v : Work) (quarter : Fin 16 × Fin 16 × Fin 16 × Fin 16) (x y : UInt32) : Work :=
  let (i, j, k, l) := quarter
  let a := v[i] + v[j] + x
  let d := rotateRight (v[l] ^^^ a) 16
  let c := v[k] + d
  let b := rotateRight (v[j] ^^^ c) 12
  let a := a + b + y
  let d := rotateRight (d ^^^ a) 8
  let c := c + d
  let b := rotateRight (b ^^^ c) 7
  (((v.set i a).set j b).set k c).set l d

/-- One round: the words of the block, taken in the given order, go in two at a time. -/
def round (m : Work) (v : Work) : List (Fin 16) → List (Fin 16 × Fin 16 × Fin 16 × Fin 16) → Work
  | p :: q :: order, quarter :: rest => round m (mix v quarter m[p] m[q]) order rest
  | _, _ => v

/-- Mixes one 64-byte block into the chaining value.  `count` is the number of message bytes up to
the end of the block, and `last` tells the last block. -/
def compress (h : Chain) (block : Bytes) (count : Nat) (last : Bool) : Chain :=
  let m : Work := Vector.ofFn fun i =>
    UInt32.ofNat (ofLittleEndian ((block.drop (4 * i.val)).take 4))
  let v : Work := h ++ startWords
  let v := v.set 12 (v[12] ^^^ UInt32.ofNat count)
  let v := v.set 13 (v[13] ^^^ UInt32.ofNat (count / UInt32.size))
  let v := if last then v.set 14 (~~~v[14]) else v
  let v := orders.foldl (fun v order => round m v order quarters) v
  Vector.ofFn fun i => h[i.val] ^^^ v[i.val] ^^^ v[i.val + 8]

/-- Mixes the blocks in order; `count` message bytes came before them. -/
def absorb (h : Chain) (count : Nat) : List Bytes → Chain
  | [] => h
  | [block] => compress h block (count + block.length) true
  | block :: rest =>
      absorb (compress h block (count + block.length) false) (count + block.length) rest

def blockLength : Nat := 64

theorem blockLength_pos : 0 < blockLength := by decide

/-- The blocks of a message; the empty message is one empty block. -/
def blocks : Bytes → List Bytes
  | [] => [[]]
  | b :: rest => slices blockLength blockLength_pos (b :: rest)

/-- The thirty-two bytes of a chaining value. -/
def toBytes (h : Chain) : Bytes := h.toList.flatMap fun w => littleEndian 4 w.toNat

theorem length_toBytes (h : Chain) : (toBytes h).length = hashLength := by
  simp [toBytes, List.length_flatMap, List.map_const', hashLength]

end Blake2s

def blake2s (message : Bytes) : Bytes32 :=
  let final := Blake2s.absorb Blake2s.start 0 (Blake2s.blocks message)
  ⟨Blake2s.toBytes final, Blake2s.length_toBytes final⟩

end Digest

end SlotEvidence
