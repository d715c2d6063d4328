/-
Module: SlotEvidence.Proofs.History
Purpose: What a slot history records: its slots are in strictly descending order, so that it records
  at most one hash for a slot, and the lookup finds just this one.  A history is made again from the
  pairs that it is written as, and from no others; pairs that fit make a history unless their order
  is wrong.
Trusted boundary: none
Main exports: SlotEntry.slot_lt_of_mem, SlotEntry.descending_iff_pairwise, History.Records,
  History.Holds, History.get?_eq_some_iff, History.held_eq_some_iff, History.Records.unique,
  History.pairOf, History.ofPairs_map_pairOf, History.eq_map_pairOf_of_ofPairs,
  History.fault_of_ofPairs
-/
import SlotEvidence.History
import SlotEvidence.Proofs.Outcome

namespace SlotEvidence

theorem SlotEntry.descending_tail {e : SlotEntry} {rest : List SlotEntry}
    (h : Descending (e :: rest)) : Descending rest := by
  cases rest with
  | nil => trivial
  | cons _ _ => exact h.2

/-- In descending entries all later slots are smaller than the first one. -/
theorem SlotEntry.slot_lt_of_mem {e : SlotEntry} {rest : List SlotEntry}
    (h : Descending (e :: rest)) {other : SlotEntry} (hmem : other ∈ rest) :
    other.slot.toNat < e.slot.toNat := by
  induction rest generalizing e with
  | nil => cases hmem
  | cons next rest ih =>
      rcases List.mem_cons.1 hmem with rfl | hmem
      · exact h.1
      · exact Nat.lt_trans (ih h.2 hmem) h.1

/-- Each slot lies below the one before it just when it lies below all that are before it. -/
theorem SlotEntry.descending_iff_pairwise {entries : List SlotEntry} :
    Descending entries ↔
      entries.Pairwise fun earlier later => later.slot.toNat < earlier.slot.toNat := by
  induction entries with
  | nil => exact ⟨fun _ => .nil, fun _ => trivial⟩
  | cons e rest ih =>
      rw [List.pairwise_cons, ← ih]
      constructor
      · intro h
        exact ⟨fun _ hmem => slot_lt_of_mem h hmem, descending_tail h⟩
      · rintro ⟨hfirst, hrest⟩
        cases rest with
        | nil => trivial
        | cons next _ => exact ⟨hfirst next List.mem_cons_self, hrest⟩

namespace History

/-- The history has an entry with this slot and this hash. -/
def Records (h : History) (slot : Int) (hash : Bytes32) : Prop :=
  ∃ e ∈ h.entries, slot = e.slot.toNat ∧ e.hash = hash

/-- The search may end at a smaller slot, because the later slots are smaller still. -/
theorem lookup_eq_some_iff {slot : Int} {entries : List SlotEntry} {hash : Bytes32}
    (h : SlotEntry.Descending entries) :
    lookup slot entries = some hash ↔ ∃ e ∈ entries, slot = e.slot.toNat ∧ e.hash = hash := by
  induction entries with
  | nil => simp [lookup]
  | cons e rest ih =>
      rw [lookup]
      by_cases hslot : slot = e.slot.toNat
      · rw [if_pos hslot]
        constructor
        · intro heq
          exact ⟨e, List.mem_cons_self, hslot, Option.some.inj heq⟩
        · rintro ⟨other, hmem, hother, rfl⟩
          rcases List.mem_cons.1 hmem with rfl | hmem
          · rfl
          · have hlt := SlotEntry.slot_lt_of_mem h hmem
            omega
      · rw [if_neg hslot]
        -- The lookup stops at the first smaller slot, below which all others lie.
        by_cases hsmaller : e.slot.toNat < slot
        · rw [if_pos hsmaller]
          constructor
          · intro heq
            cases heq
          · rintro ⟨other, hmem, hother, -⟩
            rcases List.mem_cons.1 hmem with rfl | hmem
            · exact absurd hother hslot
            · have hlt := SlotEntry.slot_lt_of_mem h hmem
              omega
        · rw [if_neg hsmaller, ih (SlotEntry.descending_tail h)]
          simp [hslot]

/-- The lookup of a slot finds just what the history records for it. -/
theorem get?_eq_some_iff {h : History} {slot : Int} {hash : Bytes32} :
    h.get? slot = some hash ↔ h.Records slot hash :=
  lookup_eq_some_iff h.descending

/-- A history records at most one hash for a slot. -/
theorem Records.unique {h : History} {slot : Int} {a b : Bytes32} (ha : h.Records slot a)
    (hb : h.Records slot b) : a = b := by
  rw [← get?_eq_some_iff] at ha hb
  rw [ha] at hb
  exact Option.some.inj hb

/-- A slot is not found just when no entry is for it. -/
theorem get?_eq_none_iff {h : History} {slot : Int} :
    h.get? slot = none ↔ ∀ e ∈ h.entries, slot ≠ e.slot.toNat := by
  rw [Option.eq_none_iff_forall_ne_some]
  constructor
  · intro hnone e he hslot
    exact hnone e.hash (get?_eq_some_iff.2 ⟨e, he, hslot, rfl⟩)
  · intro hnone hash hsome
    obtain ⟨e, he, hslot, -⟩ := get?_eq_some_iff.1 hsome
    exact hnone e he hslot

/-- The history has an entry with this slot and a hash of these bytes. -/
def Holds (h : History) (slot : Int) (hash : Bytes) : Prop :=
  ∃ e ∈ h.entries, slot = e.slot.toNat ∧ e.hash.bytes = hash

theorem holds_iff {h : History} {slot : Int} {hash : Bytes} :
    h.Holds slot hash ↔ ∃ recorded, h.get? slot = some recorded ∧ recorded.bytes = hash := by
  constructor
  · rintro ⟨e, he, hslot, hhash⟩
    exact ⟨e.hash, get?_eq_some_iff.2 ⟨e, he, hslot, rfl⟩, hhash⟩
  · rintro ⟨recorded, hget, rfl⟩
    obtain ⟨e, he, hslot, rfl⟩ := get?_eq_some_iff.1 hget
    exact ⟨e, he, hslot, rfl⟩

/-- A history holds at most one hash for a slot. -/
theorem Holds.unique {h : History} {slot : Int} {a b : Bytes} (ha : h.Holds slot a)
    (hb : h.Holds slot b) : a = b := by
  obtain ⟨x, hx, rfl⟩ := holds_iff.1 ha
  obtain ⟨y, hy, rfl⟩ := holds_iff.1 hb
  rw [hx] at hy
  cases hy
  rfl

/-- A history holds the bytes of a key for a slot just when it records the key for it. -/
theorem holds_bytes_iff {h : History} {slot : Int} {hash : Bytes32} :
    h.Holds slot hash.bytes ↔ h.Records slot hash := by
  rw [holds_iff, ← get?_eq_some_iff]
  constructor
  · rintro ⟨recorded, hget, hbytes⟩
    rw [← Bytes32.ext hbytes]
    exact hget
  · intro hget
    exact ⟨hash, hget, rfl⟩

/-- A slot that entries do not hold is found in what was held before them. -/
theorem foldl_held_of_not_mem {slot : UInt64} {entries : List SlotEntry}
    (h : ∀ e ∈ entries, e.slot ≠ slot) (before : Option Bytes32) :
    entries.foldl (fun known e => if e.slot = slot then some e.hash else known) before =
      before := by
  induction entries with
  | nil => rfl
  | cons e rest ih =>
      obtain ⟨hfirst, hrest⟩ := List.forall_mem_cons.1 h
      rw [List.foldl_cons, if_neg hfirst, ih hrest]

/-- Since no slot comes twice, the last entry for a slot is the one that is there. -/
theorem foldl_held_of_mem {entries : List SlotEntry} (h : SlotEntry.Descending entries)
    {e : SlotEntry} (he : e ∈ entries) (before : Option Bytes32) :
    entries.foldl (fun known other => if other.slot = e.slot then some other.hash else known)
      before = some e.hash := by
  induction entries generalizing before with
  | nil => cases he
  | cons first rest ih =>
      rw [List.foldl_cons]
      rcases List.mem_cons.1 he with rfl | hrest
      · rw [if_pos rfl]
        apply foldl_held_of_not_mem
        intro other hother hsame
        have hlt := SlotEntry.slot_lt_of_mem h hother
        rw [hsame] at hlt
        exact Nat.lt_irrefl _ hlt
      · exact ih (SlotEntry.descending_tail h) hrest _

/-- The map of all entries holds for a slot just what the history records for it. -/
theorem held_eq_some_iff {h : History} {slot : UInt64} {hash : Bytes32} :
    held slot h.entries = some hash ↔ h.Records slot.toNat hash := by
  constructor
  · intro hheld
    by_cases hmem : ∃ e ∈ h.entries, e.slot = slot
    · obtain ⟨e, he, rfl⟩ := hmem
      rw [held, foldl_held_of_mem h.descending he] at hheld
      exact ⟨e, he, rfl, Option.some.inj hheld⟩
    · have hnone : ∀ e ∈ h.entries, e.slot ≠ slot := fun e he hslot => hmem ⟨e, he, hslot⟩
      rw [held, foldl_held_of_not_mem hnone] at hheld
      cases hheld
  · rintro ⟨e, he, hslot, rfl⟩
    obtain rfl : slot = e.slot := UInt64.toNat_inj.1 (Int.natCast_inj.1 hslot)
    exact foldl_held_of_mem h.descending he none

/-- The slot and the hash of an entry. -/
def pairOf (e : SlotEntry) : Int × Bytes := (e.slot.toNat, e.hash.bytes)

theorem entryOf_pairOf (position : Nat) (e : SlotEntry) :
    entryOf position e.slot.toNat e.hash.bytes = .ok e := by
  have hslot : ¬((e.slot.toNat : Int) < 0 ∨ (UInt64.size : Int) ≤ e.slot.toNat) := by
    rintro (hneg | hlarge)
    · exact Int.not_lt.2 (Int.natCast_nonneg _) hneg
    · exact Nat.not_le.2 e.slot.toNat_lt (Int.ofNat_le.1 hlarge)
  rw [entryOf, if_neg hslot, Bytes32.ofBytes?_bytes, Int.toNat_natCast, UInt64.ofNat_toNat]

/-- The pairs of descending entries are accepted, and the entries come back. -/
theorem entriesAfter_map_pairOf {position : Nat} {previous : SlotEntry} {entries : List SlotEntry}
    (h : SlotEntry.Descending (previous :: entries)) :
    entriesAfter position previous (entries.map pairOf) = .ok ⟨entries, h⟩ := by
  induction entries generalizing position previous with
  | nil => rfl
  | cons e rest ih =>
      rw [List.map_cons, pairOf, entriesAfter, entryOf_pairOf]
      change (if h : _ then _ else _) = _
      rw [dif_pos h.1, ih h.2]
      rfl

/-- A history is made again from the slots and hashes of its entries. -/
theorem ofPairs_map_pairOf (h : History) : ofPairs (h.entries.map pairOf) = .ok h := by
  obtain ⟨entries, hdescending⟩ := h
  cases entries with
  | nil => rfl
  | cons e rest =>
      rw [List.map_cons, pairOf, ofPairs, entryOf_pairOf]
      change (entriesAfter 1 e (rest.map pairOf) >>= _) = _
      rw [entriesAfter_map_pairOf hdescending]
      rfl

/-- An entry is made of nothing but its slot and its hash. -/
theorem pairOf_of_entryOf {position : Nat} {slot : Int} {hash : Bytes} {e : SlotEntry}
    (h : entryOf position slot hash = .ok e) : (slot, hash) = pairOf e := by
  unfold entryOf at h
  split at h
  · cases h
  · rename_i hrange
    split at h
    · rename_i hash' hsome
      cases h
      have hslot : ((UInt64.ofNat slot.toNat).toNat : Int) = slot := by
        rw [UInt64.toNat_ofNat_of_lt' (by omega)]
        omega
      rw [pairOf, hslot, Bytes32.ofBytes?_eq_some_iff.1 hsome]
    · cases h

/-- Conversely, pairs that are accepted are those of the entries that they made. -/
theorem eq_map_pairOf_of_entriesAfter {position : Nat} {previous : SlotEntry}
    {pairs : List (Int × Bytes)}
    {made : { entries : List SlotEntry // SlotEntry.Descending (previous :: entries) }}
    (h : entriesAfter position previous pairs = .ok made) : pairs = made.1.map pairOf := by
  induction pairs generalizing position previous with
  | nil =>
      cases h
      rfl
  | cons pair rest ih =>
      obtain ⟨slot, hash⟩ := pair
      obtain ⟨e, he, hrest⟩ := bind_eq_ok.1 h
      split at hrest
      · obtain ⟨later, hlater, hmade⟩ := bind_eq_ok.1 hrest
        cases hmade
        rw [pairOf_of_entryOf he, ih hlater, List.map_cons]
      · cases hrest

/-- The slots and hashes that a history is made of are those of its entries. -/
theorem eq_map_pairOf_of_ofPairs {pairs : List (Int × Bytes)} {h : History}
    (hmade : ofPairs pairs = .ok h) : pairs = h.entries.map pairOf := by
  cases pairs with
  | nil =>
      cases hmade
      rfl
  | cons pair rest =>
      obtain ⟨slot, hash⟩ := pair
      obtain ⟨e, he, hrest⟩ := bind_eq_ok.1 hmade
      obtain ⟨later, hlater, hh⟩ := bind_eq_ok.1 hrest
      cases hh
      rw [pairOf_of_entryOf he, eq_map_pairOf_of_entriesAfter hlater, List.map_cons]

/-- A slot of eight bytes and a hash. -/
structure PairFits (pair : Int × Bytes) : Prop where
  slot_nonneg : 0 ≤ pair.1
  slot_lt : pair.1 < UInt64.size
  length_eq : pair.2.length = hashLength

theorem PairFits.exists_entryOf {pair : Int × Bytes} (h : PairFits pair) (position : Nat) :
    ∃ e, entryOf position pair.1 pair.2 = .ok e := by
  have hhash : Bytes32.ofBytes? pair.2 = some ⟨pair.2, h.length_eq⟩ := dif_pos h.length_eq
  refine ⟨⟨UInt64.ofNat pair.1.toNat, ⟨pair.2, h.length_eq⟩⟩, ?_⟩
  rw [entryOf, if_neg, hhash]
  rintro (hneg | hlarge)
  · exact Int.not_lt.2 h.slot_nonneg hneg
  · exact Int.not_le.2 h.slot_lt hlarge

/-- Pairs that fit are refused only for their order, and the fault names the slot that is out of
order. -/
theorem fault_of_entriesAfter {position : Nat} {previous : SlotEntry} {pairs : List (Int × Bytes)}
    (hfit : ∀ pair ∈ pairs, PairFits pair) {fault : Fault}
    (h : entriesAfter position previous pairs = .error fault) :
    ∃ position previous slot, fault = .notDescending position previous slot ∧
      previous ≤ slot := by
  induction pairs generalizing position previous with
  | nil => cases h
  | cons pair rest ih =>
      obtain ⟨hpair, hrest⟩ := List.forall_mem_cons.1 hfit
      obtain ⟨e, he⟩ := hpair.exists_entryOf position
      rw [entriesAfter, he] at h
      change (if h : _ then _ else _) = _ at h
      split at h
      · rcases bind_eq_error.1 h with h | ⟨_, -, h⟩
        · exact ih hrest h
        · cases h
      · rename_i hlt
        cases h
        exact ⟨_, _, _, rfl, Nat.not_lt.1 hlt⟩

/-- Slots of eight bytes and hashes make a history, unless a slot does not come after the one before
it. -/
theorem fault_of_ofPairs {pairs : List (Int × Bytes)} (hfit : ∀ pair ∈ pairs, PairFits pair)
    {fault : Fault} (h : ofPairs pairs = .error fault) :
    ∃ position previous slot, fault = .notDescending position previous slot ∧
      previous ≤ slot := by
  cases pairs with
  | nil => cases h
  | cons pair rest =>
      obtain ⟨hpair, hrest⟩ := List.forall_mem_cons.1 hfit
      obtain ⟨e, he⟩ := hpair.exists_entryOf 0
      rw [ofPairs, he] at h
      rcases bind_eq_error.1 h with h | ⟨_, -, h⟩
      · cases h
      · rcases bind_eq_error.1 h with h | ⟨_, -, h⟩
        · exact fault_of_entriesAfter hrest h
        · cases h

end History

end SlotEvidence
