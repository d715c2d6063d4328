/-
Module: SlotEvidence.Proofs.History.Record
Purpose: The binary record of a slot history.  Reading accepts just the byte strings that hold the
  number of entries and then so many slots, in descending order, each with a hash; writing gives
  them back byte for byte.  Everything else is refused as malformed.
Trusted boundary: none
Main exports: History.IsRecordOf, History.ofRecord_eq_ok_iff, History.exists_of_isRecordOf,
  History.record_round_trip
-/
import SlotEvidence.Proofs.Bytes
import SlotEvidence.Proofs.History

namespace SlotEvidence

namespace History

/-! ### Records of entries

An entry takes forty bytes, eight for the slot and the rest for the hash. -/

@[simp] theorem length_entryRecord (e : SlotEntry) : (entryRecord e).length = entrySize := by
  rw [entryRecord, List.length_append, length_littleEndian, e.hash.length_bytes]
  rfl

theorem length_flatMap_entryRecord (entries : List SlotEntry) :
    (entries.flatMap entryRecord).length = entries.length * entrySize := by
  induction entries with
  | nil => rfl
  | cons e rest ih =>
      rw [List.flatMap_cons, List.length_append, length_entryRecord, ih, List.length_cons,
        Nat.succ_mul, Nat.add_comm]

/-- The slot and the hash in the record of an entry. -/
def pairOfRecord (record : Bytes) : Int × Bytes :=
  (Int.ofNat (ofLittleEndian (record.take 8)), record.drop 8)

/-- Of the bytes of an entry, the first eight are its slot and the rest its hash. -/
theorem pairOfRecord_entryRecord (e : SlotEntry) : pairOfRecord (entryRecord e) = pairOf e := by
  have hwidth : (littleEndian 8 e.slot.toNat).length = 8 := length_littleEndian _ _
  have hslot : e.slot.toNat < Nat.pow 256 8 := e.slot.toNat_lt
  rw [pairOfRecord, entryRecord, List.take_left' hwidth, List.drop_left' hwidth,
    ofLittleEndian_littleEndian hslot]
  rfl

/-- A record of the right length is that of the entry which is read from it. -/
theorem eq_entryRecord {record : Bytes} {e : SlotEntry} (hlength : record.length = entrySize)
    (h : pairOfRecord record = pairOf e) : record = entryRecord e := by
  obtain ⟨hslot, hhash⟩ := Prod.mk.inj h
  have hwidth : (record.take 8).length = 8 := by
    rw [List.length_take, hlength]
    rfl
  have htake : record.take 8 = littleEndian 8 e.slot.toNat := by
    have hback := littleEndian_ofLittleEndian (record.take 8)
    rw [hwidth, Int.ofNat.inj hslot] at hback
    exact hback.symm
  rw [entryRecord, ← htake, ← hhash, List.take_append_drop]

/-- The bytes of entries are split where the entries meet, since all of them have one length. -/
theorem pairsOfRecord_flatMap (entries : List SlotEntry) :
    pairsOfRecord (entries.flatMap entryRecord) = entries.map pairOf := by
  rw [pairsOfRecord, List.flatMap_def, slices_flatten entrySize_pos]
  · rw [List.map_map]
    exact List.map_congr_left fun e _ => pairOfRecord_entryRecord e
  · intro record hrecord
    obtain ⟨e, -, rfl⟩ := List.mem_map.1 hrecord
    exact length_entryRecord e

/-- Bytes whose number is a multiple of that of an entry are the records of the entries which are
read from them. -/
theorem eq_flatMap_entryRecord {bytes : Bytes} {entries : List SlotEntry}
    (hdvd : entrySize ∣ bytes.length) (h : pairsOfRecord bytes = entries.map pairOf) :
    bytes = entries.flatMap entryRecord := by
  have hrecords : ∀ {records : List Bytes} {entries : List SlotEntry},
      (∀ record ∈ records, record.length = entrySize) →
        records.map pairOfRecord = entries.map pairOf → records = entries.map entryRecord := by
    intro records
    induction records with
    | nil =>
        intro entries _ heq
        rw [List.map_eq_nil_iff.1 heq.symm]
        rfl
    | cons record rest ih =>
        intro entries hlength heq
        obtain ⟨e, later, rfl, he, hlater⟩ := List.map_eq_cons_iff.1 heq.symm
        obtain ⟨hrecord, hrest⟩ := List.forall_mem_cons.1 hlength
        rw [List.map_cons, ← eq_entryRecord hrecord he.symm, ← ih hrest hlater.symm]
  rw [← flatten_slices entrySize entrySize_pos bytes, List.flatMap_def]
  refine congrArg List.flatten (hrecords ?_ h)
  exact fun record hrecord => length_of_mem_slices_of_dvd entrySize_pos hdvd hrecord

/-! ### Records of histories

A record is the number of its entries in eight bytes and then the entries.  It must have just the
length that the number asks for. -/

/-- The number of entries of a history of less than `2 ^ 64` of them is read back. -/
theorem ofRecord_toRecord {h : History} (hcount : h.entries.length < UInt64.size) :
    ofRecord h.toRecord = .ok h := by
  have hwidth : (littleEndian 8 h.entries.length).length = 8 := length_littleEndian _ _
  have hlength : h.toRecord.length = 8 + h.entries.length * entrySize := by
    rw [toRecord, List.length_append, hwidth, length_flatMap_entryRecord]
  have htake : ofLittleEndian (h.toRecord.take 8) = h.entries.length := by
    rw [toRecord, List.take_left' hwidth, ofLittleEndian_littleEndian hcount]
  have hdrop : h.toRecord.drop 8 = h.entries.flatMap entryRecord := by
    rw [toRecord, List.drop_left' hwidth]
  rw [ofRecord, if_neg (by omega)]
  dsimp only
  rw [htake, if_neg (not_not_intro hlength), hdrop, pairsOfRecord_flatMap, ofPairs_map_pairOf]

/-- A byte string is read as a history just when it is the record of the history. -/
theorem ofRecord_eq_ok_iff {bytes : Bytes} {h : History} :
    ofRecord bytes = .ok h ↔ h.entries.length < UInt64.size ∧ bytes = h.toRecord := by
  constructor
  · intro hread
    rw [ofRecord] at hread
    split at hread
    · cases hread
    · rename_i hshort
      dsimp only at hread
      split at hread
      · cases hread
      · rename_i hlength
        have hwidth : (bytes.take 8).length = 8 := by
          rw [List.length_take, Nat.min_eq_left (Nat.le_of_not_lt hshort)]
        have hrest : (bytes.drop 8).length = ofLittleEndian (bytes.take 8) * entrySize := by
          rw [List.length_drop, Decidable.not_not.1 hlength, Nat.add_sub_cancel_left]
        have hentries := eq_flatMap_entryRecord ⟨_, hrest.trans (Nat.mul_comm _ _)⟩
          (eq_map_pairOf_of_ofPairs hread)
        -- The entries that were read fill the rest, so that their number is the one in front.
        have hcount : ofLittleEndian (bytes.take 8) = h.entries.length := by
          rw [hentries, length_flatMap_entryRecord] at hrest
          exact (Nat.mul_right_cancel entrySize_pos hrest).symm
        constructor
        · rw [← hcount]
          have hbound := ofLittleEndian_lt (bytes.take 8)
          rwa [hwidth] at hbound
        · have hback := littleEndian_ofLittleEndian (bytes.take 8)
          rw [hwidth, hcount] at hback
          rw [toRecord, hback, ← hentries, List.take_append_drop]
  · rintro ⟨hcount, rfl⟩
    exact ofRecord_toRecord hcount

/-- A byte string holds the number of slots with hashes in eight bytes, then for each of them the
slot in eight bytes and the hash of 32 bytes, and the slots descend. -/
structure IsRecordOf (bytes : Bytes) (pairs : List (Nat × Bytes)) : Prop where
  bytes_eq : bytes =
    littleEndian 8 pairs.length ++ pairs.flatMap fun pair => littleEndian 8 pair.1 ++ pair.2
  count_lt : pairs.length < UInt64.size
  slot_lt : ∀ pair ∈ pairs, pair.1 < UInt64.size
  length_hash : ∀ pair ∈ pairs, pair.2.length = 32
  descending : pairs.Pairwise fun earlier later => later.1 < earlier.1

/-- The number of the slot of an entry, and its hash. -/
def numbersOf (e : SlotEntry) : Nat × Bytes := (e.slot.toNat, e.hash.bytes)

/-- What is written is the record of the entries, if their number fits in its eight bytes. -/
theorem isRecordOf_toRecord {h : History} (hcount : h.entries.length < UInt64.size) :
    IsRecordOf h.toRecord (h.entries.map numbersOf) where
  bytes_eq := by
    rw [toRecord, List.length_map, List.flatMap_map]
    rfl
  count_lt := by rwa [List.length_map]
  slot_lt := by
    intro pair hpair
    obtain ⟨e, -, rfl⟩ := List.mem_map.1 hpair
    exact e.slot.toNat_lt
  length_hash := by
    intro pair hpair
    obtain ⟨e, -, rfl⟩ := List.mem_map.1 hpair
    exact e.hash.length_bytes
  descending := List.pairwise_map.2 (SlotEntry.descending_iff_pairwise.1 h.descending)

/-- Slots and hashes of the right sizes are those of entries. -/
theorem exists_entries {pairs : List (Nat × Bytes)} (hslot : ∀ pair ∈ pairs, pair.1 < UInt64.size)
    (hhash : ∀ pair ∈ pairs, pair.2.length = 32) :
    ∃ entries : List SlotEntry, pairs = entries.map numbersOf := by
  induction pairs with
  | nil => exact ⟨[], rfl⟩
  | cons pair rest ih =>
      obtain ⟨hfirst, hslots⟩ := List.forall_mem_cons.1 hslot
      obtain ⟨hlength, hhashes⟩ := List.forall_mem_cons.1 hhash
      obtain ⟨entries, rfl⟩ := ih hslots hhashes
      refine ⟨⟨UInt64.ofNat pair.1, ⟨pair.2, hlength⟩⟩ :: entries, ?_⟩
      rw [List.map_cons, numbersOf, UInt64.toNat_ofNat_of_lt' hfirst]

/-- The record of a descending list of entries is read. -/
theorem exists_of_isRecordOf {bytes : Bytes} {pairs : List (Nat × Bytes)}
    (hrecord : IsRecordOf bytes pairs) : ∃ h, ofRecord bytes = .ok h := by
  obtain ⟨entries, rfl⟩ := exists_entries hrecord.slot_lt hrecord.length_hash
  have hdescending : SlotEntry.Descending entries :=
    SlotEntry.descending_iff_pairwise.2 (List.pairwise_map.1 hrecord.descending)
  refine ⟨⟨entries, hdescending⟩, ofRecord_eq_ok_iff.2 ⟨?_, ?_⟩⟩
  · simpa using hrecord.count_lt
  · rw [hrecord.bytes_eq, List.length_map, List.flatMap_map]
    rfl

/-- The slots and the hashes of whole records fit into entries. -/
theorem pairFits_of_mem_pairsOfRecord {bytes : Bytes} (hdvd : entrySize ∣ bytes.length)
    {pair : Int × Bytes} (hpair : pair ∈ pairsOfRecord bytes) : PairFits pair := by
  obtain ⟨record, hrecord, rfl⟩ := List.mem_map.1 hpair
  have hlength : record.length = entrySize := length_of_mem_slices_of_dvd entrySize_pos hdvd hrecord
  have hwidth : (record.take 8).length = 8 := by
    rw [List.length_take, hlength]
    rfl
  have hslot := ofLittleEndian_lt (record.take 8)
  rw [hwidth] at hslot
  refine ⟨Int.natCast_nonneg _, Int.ofNat_lt.2 hslot, ?_⟩
  rw [List.length_drop, hlength]
  rfl

/-- Whatever is wrong with a byte string can be reported: the slots that are read from it fit in
eight bytes, so none of them is too long to be written. -/
theorem report_of_ofRecord {bytes : Bytes} {fault : Fault} (h : ofRecord bytes = .error fault) :
    ∃ report, fault.report = .ok report ∧ report.kind = .structural := by
  rw [ofRecord] at h
  split at h
  · cases h
    exact ⟨_, rfl, rfl⟩
  · dsimp only at h
    split at h
    · cases h
      exact ⟨_, rfl, rfl⟩
    · rename_i hlength
      have hrest : (bytes.drop 8).length = entrySize * ofLittleEndian (bytes.take 8) := by
        rw [List.length_drop, Decidable.not_not.1 hlength, Nat.add_sub_cancel_left, Nat.mul_comm]
      obtain ⟨position, previous, slot, rfl, -⟩ :=
        fault_of_ofPairs (fun pair hpair => pairFits_of_mem_pairsOfRecord ⟨_, hrest⟩ hpair) h
      exact ⟨_, rfl, rfl⟩

/-- A history of less than `2 ^ 64` entries is read from its record.  A byte string is read as a
history just when it is the record of slots in descending order with their hashes; these are then
the entries of the history, and the string is written for it.  Every other one is refused as
malformed. -/
theorem record_round_trip :
    (∀ h : History, h.entries.length < UInt64.size → ofRecord h.toRecord = .ok h) ∧
    ∀ bytes : Bytes,
      ((∃ h, ofRecord bytes = .ok h) ↔ ∃ pairs, IsRecordOf bytes pairs) ∧
      (∀ h, ofRecord bytes = .ok h →
        IsRecordOf bytes (h.entries.map numbersOf) ∧ h.toRecord = bytes) ∧
      ((¬∃ pairs, IsRecordOf bytes pairs) →
        ∃ fault, ofRecord bytes = .error fault ∧
          ∃ report, fault.report = .ok report ∧ report.kind = .structural) := by
  have hread : ∀ {bytes : Bytes} {h : History}, ofRecord bytes = .ok h →
      IsRecordOf bytes (h.entries.map numbersOf) ∧ h.toRecord = bytes := by
    intro bytes h hread
    obtain ⟨hcount, rfl⟩ := ofRecord_eq_ok_iff.1 hread
    exact ⟨isRecordOf_toRecord hcount, rfl⟩
  refine ⟨fun h hcount => ofRecord_toRecord hcount, fun bytes => ⟨⟨?_, ?_⟩, ?_, ?_⟩⟩
  · rintro ⟨h, hok⟩
    exact ⟨_, (hread hok).1⟩
  · rintro ⟨pairs, hrecord⟩
    exact exists_of_isRecordOf hrecord
  · intro h hok
    exact hread hok
  · intro hnone
    cases hresult : ofRecord bytes with
    | ok h => exact absurd ⟨_, (hread hresult).1⟩ hnone
    | error fault => exact ⟨fault, rfl, report_of_ofRecord hresult⟩

/-- A history of the largest slot and the smallest one. -/
def extremes : History where
  entries := [⟨UInt64.ofNat (UInt64.size - 1), Bytes32.zero⟩, ⟨0, Bytes32.zero⟩]
  descending := ⟨by decide, trivial⟩

/-- The record of two entries is read back, and refused when a byte follows it. -/
theorem extremes_record :
    extremes.entries.length < UInt64.size ∧ ofRecord extremes.toRecord = .ok extremes ∧
      IsRecordOf extremes.toRecord (extremes.entries.map numbersOf) ∧
      (¬∃ pairs, IsRecordOf (extremes.toRecord ++ [0]) pairs) ∧
      ∃ fault, ofRecord (extremes.toRecord ++ [0]) = .error fault ∧
        ∃ report, fault.report = .ok report ∧ report.kind = .structural := by
  have hcount : extremes.entries.length < UInt64.size := by decide
  have hread := record_round_trip.1 extremes hcount
  have hlong : ofRecord (extremes.toRecord ++ [0]) = .error (.recordLength 89 88 2) := rfl
  have hnone : ¬∃ pairs, IsRecordOf (extremes.toRecord ++ [0]) pairs := by
    intro hpairs
    obtain ⟨h, hok⟩ := (record_round_trip.2 (extremes.toRecord ++ [0])).1.2 hpairs
    rw [hlong] at hok
    cases hok
  exact ⟨hcount, hread, ((record_round_trip.2 extremes.toRecord).2.1 extremes hread).1, hnone,
    (record_round_trip.2 (extremes.toRecord ++ [0])).2.2 hnone⟩

end History

end SlotEvidence
