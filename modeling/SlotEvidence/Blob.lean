/-
Module: SlotEvidence.Blob
Purpose: The chunks of a blob and the digest that folds them: the hash of the first chunk, then the
  hash of the digest so far followed by the next chunk.
Specification: SPEC_FULL 7.1, ChunkDigestAccumulator (`chunk_blob`, `accumulate_digest`)
Trusted boundary: chunks come as a finished list
Main exports: Chunk, Chunk.split, Accumulator, Accumulator.update, Accumulator.digest, foldChunks
-/
import SlotEvidence.Settings

namespace SlotEvidence

/-- A slice of a blob with its number. -/
structure Chunk where
  index : Nat
  payload : Bytes
deriving DecidableEq

namespace Chunk

/-- Why there is no chunk. -/
inductive Misfit where
  | negativeIndex (index : Int)
  | sizeNotPositive (size : Int)
deriving DecidableEq

def Misfit.message : Misfit → String
  | .negativeIndex index =>
      Text.told (return "Chunk index must be non-negative, got " ++ (← Text.decimal index))
  | .sizeNotPositive size =>
      Text.told (return "chunk_size must be positive, got " ++ (← Text.decimal size))

def ofParts (index : Int) (payload : Bytes) : Except Misfit Chunk :=
  if index < 0 then .error (.negativeIndex index) else .ok ⟨index.toNat, payload⟩

/-- Slices with consecutive numbers from `index` on. -/
def number (index : Nat) : List Bytes → List Chunk
  | [] => []
  | payload :: rest => ⟨index, payload⟩ :: number (index + 1) rest

/-- A blob in chunks of the given size, numbered from zero, `chunk_blob` [SPEC_FULL 7.1].  The last
one may be shorter. -/
def split (size : Nat) (positive : 0 < size) (blob : Bytes) : List Chunk :=
  number 0 (slices size positive blob)

/-- A blob in chunks of a size that has not been checked. -/
def split? (size : Int) (blob : Bytes) : Except Misfit (List Chunk) :=
  if h : 0 < size.toNat then .ok (split size.toNat h blob) else .error (.sizeNotPositive size)

/-- Why chunks are not folded. -/
inductive Fault where
  /-- There is no chunk. -/
  | empty
  /-- The chunk at a place of the batch came before. -/
  | repeated (position index : Nat)
  /-- The chunk at a place of the batch is not the next one. -/
  | gap (position index expected : Nat)
deriving DecidableEq

namespace Fault

/-- What is said of a fault.  The index of a chunk may have no text. -/
def message : Fault → Except Text.Overlong String
  | .empty => return "Cannot digest a blob with no chunks"
  | .repeated _ index =>
      return "Chunk index " ++ (← Text.decimal index) ++ " was already accumulated"
  | .gap _ index expected =>
      return s!"Expected chunk index {expected}, got " ++ (← Text.decimal index)

def code : Fault → String
  | .empty => Code.emptyInput
  | .repeated _ _ => Code.duplicateIndex
  | .gap _ _ _ => Code.indexGap

/-- The index of the chunk that is out of place. -/
def index? : Fault → Option Int
  | .empty => none
  | .repeated _ index | .gap _ index _ => some index

def details : Fault → Members Value
  | .empty => []
  | .repeated position _ => [("position", .int position)]
  | .gap position _ expected => [("position", .int position), ("expected", .int expected)]

/-- The fault that is raised, or the refusal to write the index in its message. -/
def report (f : Fault) : Except Text.Overlong SlotEvidence.Fault :=
  f.message.map fun message => .chunk message f.code f.index? f.details

end Fault

end Chunk

/-- The digest after folding payloads into the digest so far. -/
def foldPayloads (s : Settings) (digest : Option Bytes32) (payloads : List Bytes) :
    Option Bytes32 :=
  payloads.foldl
    (fun digest payload =>
      match digest with
      | none => some (s.digest payload)
      | some d => some (s.digestParts [d.bytes, payload]))
    digest

/-- The running digest of a blob of which some chunks have been seen. -/
structure Accumulator where
  digest? : Option Bytes32 := none
  seen : Nat := 0
deriving DecidableEq

namespace Accumulator

/-- The fault of the first chunk that is out of place, where `position` chunks of the batch come
before and the next one must have the number `expected`. -/
def fault? (position expected : Nat) : List Chunk → Option Chunk.Fault
  | [] => none
  | chunk :: rest =>
      if chunk.index < expected then some (.repeated position chunk.index)
      else if chunk.index ≠ expected then some (.gap position chunk.index expected)
      else fault? (position + 1) (expected + 1) rest

/-- Folds a batch of chunks, `ChunkDigestAccumulator.update` [SPEC_FULL 7.1].  A faulty batch is
refused as a whole. -/
def update (s : Settings) (a : Accumulator) (batch : List Chunk) : Except Chunk.Fault Accumulator :=
  match fault? 0 a.seen batch with
  | some fault => .error fault
  | none => .ok ⟨foldPayloads s a.digest? (batch.map (·.payload)), a.seen + batch.length⟩

/-- The digest of all chunks seen, `ChunkDigestAccumulator.digest` [SPEC_FULL 7.1]; there must be
one. -/
def digest (a : Accumulator) : Except Chunk.Fault Bytes32 :=
  match a.digest? with
  | some d => .ok d
  | none => .error .empty

end Accumulator

/-- The digest of chunks in one call, `accumulate_digest` [SPEC_FULL 7.1]. -/
def foldChunks (s : Settings) (chunks : List Chunk) : Except Chunk.Fault Bytes32 := do
  let a ← Accumulator.update s {} chunks
  a.digest

end SlotEvidence
