/-
Module: SlotEvidence.Proofs.History.Decision
Purpose: A history offered as evidence for the bank hash of a slot is decided by what the two
  histories hold, whatever their gaps and wherever they overlap.  The rejection tells the first
  violation in a fixed order, where a slot that is missing lies, and the newest slot on which the
  histories differ.
Trusted boundary: none
Main exports: History.LiesAt, History.gap_eq_iff, SlotExhibit.FirstViolated,
  SlotExhibit.objection?_eq_some_iff, SlotExhibit.verify_ok_iff, SlotExhibit.Objection.ToldBy,
  SlotExhibit.verify_decides_by_membership
-/
import SlotEvidence.Proofs.History.Evidence

namespace SlotEvidence

namespace History

/-! ### The place of a missing slot

A slot that a history lacks lies above its head, below its tail, between two of its slots or in a
history without any, and in one of these places only. -/

/-- Where a slot lies relative to all entries of a history. -/
inductive LiesAt (h : History) (slot : Int) : Gap → Prop
  | emptyHistory (hempty : h.entries = []) : LiesAt h slot .emptyHistory
  | olderThanWindow (hentries : h.entries ≠ [])
      (hlarger : ∀ e ∈ h.entries, slot < e.slot.toNat) : LiesAt h slot .olderThanWindow
  | newerThanHead (hentries : h.entries ≠ [])
      (hsmaller : ∀ e ∈ h.entries, e.slot.toNat < slot) : LiesAt h slot .newerThanHead
  | skippedSlot (hlarger : ∃ e ∈ h.entries, slot < e.slot.toNat)
      (hsmaller : ∃ e ∈ h.entries, e.slot.toNat < slot) : LiesAt h slot .skippedSlot

/-- A slot lies in one place only. -/
theorem LiesAt.unique {h : History} {slot : Int} {a b : Gap} (ha : h.LiesAt slot a)
    (hb : h.LiesAt slot b) : a = b := by
  -- Two places exclude each other because some entry would have to lie on both sides of the slot.
  cases ha with
  | emptyHistory hempty =>
      cases hb with
      | emptyHistory => rfl
      | olderThanWindow hentries => exact absurd hempty hentries
      | newerThanHead hentries => exact absurd hempty hentries
      | skippedSlot hlarger =>
          obtain ⟨e, he, -⟩ := hlarger
          rw [hempty] at he
          cases he
  | olderThanWindow hentries hlarger =>
      obtain ⟨e, he⟩ := List.exists_mem_of_ne_nil _ hentries
      cases hb with
      | emptyHistory hempty => exact absurd hempty hentries
      | olderThanWindow => rfl
      | newerThanHead _ hsmaller =>
          exact absurd (hlarger e he) (Int.lt_asymm (hsmaller e he))
      | skippedSlot _ hsmaller =>
          obtain ⟨other, hother, hlt⟩ := hsmaller
          exact absurd (hlarger other hother) (Int.lt_asymm hlt)
  | newerThanHead hentries hsmaller =>
      obtain ⟨e, he⟩ := List.exists_mem_of_ne_nil _ hentries
      cases hb with
      | emptyHistory hempty => exact absurd hempty hentries
      | olderThanWindow _ hlarger =>
          exact absurd (hlarger e he) (Int.lt_asymm (hsmaller e he))
      | newerThanHead => rfl
      | skippedSlot hlarger =>
          obtain ⟨other, hother, hlt⟩ := hlarger
          exact absurd (hsmaller other hother) (Int.lt_asymm hlt)
  | skippedSlot hlarger hsmaller =>
      obtain ⟨large, hlarge, hslotLarge⟩ := hlarger
      obtain ⟨small, hsmall, hslotSmall⟩ := hsmaller
      cases hb with
      | emptyHistory hempty =>
          rw [hempty] at hlarge
          cases hlarge
      | olderThanWindow _ hall => exact absurd (hall small hsmall) (Int.lt_asymm hslotSmall)
      | newerThanHead _ hall => exact absurd (hall large hlarge) (Int.lt_asymm hslotLarge)
      | skippedSlot => rfl

/-- The histories hold different hashes for the slot. -/
def Differs (a b : History) (slot : Int) : Prop :=
  ∃ x y, a.Holds slot x ∧ b.Holds slot y ∧ x ≠ y

end History

namespace SlotExhibit

/-! ### The first violation

Among several disagreements the one of the newest slot is told, because the given history is
searched from its head on. -/

/-- The histories hold these hashes for the slot, which are different ones, and for no larger slot
do they differ. -/
structure NewestDifference (given trusted : History) (slot : Nat) (expected recorded : Bytes) :
    Prop where
  given_holds : given.Holds slot recorded
  trusted_holds : trusted.Holds slot expected
  differ : recorded ≠ expected
  newest : ∀ other, given.Differs trusted other → other ≤ slot

/-- The first violation of evidence for the bank hash of a slot: all conditions before it are met,
and it is not. -/
inductive FirstViolated (s : Settings) (e : SlotExhibit) (slot : Int) (bankHash : Bytes)
    (trusted : History) : Objection → Prop
  | otherSlot (hslot : e.slot ≠ slot) :
      FirstViolated s e slot bankHash trusted (.otherSlot e.slot slot)
  | tooLong (hslot : e.slot = slot) (hsize : s.historyWindow < e.history.size) :
      FirstViolated s e slot bankHash trusted (.tooLong e.history.size s.historyWindow)
  | missing (hslot : e.slot = slot) (hsize : e.history.size ≤ s.historyWindow)
      (hmissing : ∀ x ∈ e.history.entries, slot ≠ x.slot.toNat) :
      FirstViolated s e slot bankHash trusted (.missing slot e.history)
  | otherHash (hslot : e.slot = slot) (hsize : e.history.size ≤ s.historyWindow)
      {recorded : Bytes} (hgiven : e.history.Holds slot recorded) (hother : recorded ≠ bankHash) :
      FirstViolated s e slot bankHash trusted (.otherHash slot bankHash recorded)
  | untrusted (hslot : e.slot = slot) (hsize : e.history.size ≤ s.historyWindow)
      (hgiven : e.history.Holds slot bankHash)
      (hmissing : ∀ x ∈ trusted.entries, slot ≠ x.slot.toNat) :
      FirstViolated s e slot bankHash trusted (.untrusted slot trusted)
  | otherTrustedHash (hslot : e.slot = slot) (hsize : e.history.size ≤ s.historyWindow)
      (hgiven : e.history.Holds slot bankHash) {known : Bytes} (hknown : trusted.Holds slot known)
      (hother : known ≠ bankHash) :
      FirstViolated s e slot bankHash trusted (.otherTrustedHash slot known bankHash)
  | disagreement (hslot : e.slot = slot) (hsize : e.history.size ≤ s.historyWindow)
      (hgiven : e.history.Holds slot bankHash) (hknown : trusted.Holds slot bankHash)
      {shared : Nat} {expected recorded : Bytes}
      (hnewest : NewestDifference e.history trusted shared expected recorded) :
      FirstViolated s e slot bankHash trusted (.disagreement shared expected recorded)

/-- The scan of the entries finds the first of them for which the trusted history has another
hash. -/
theorem disagreement?_eq_some {trusted : History} {entries : List SlotEntry} {o : Objection}
    (h : disagreement? trusted entries = some o) :
    ∃ before x after known, entries = before ++ x :: after ∧
      trusted.Records x.slot.toNat known ∧ known ≠ x.hash ∧
      o = .disagreement x.slot.toNat known.bytes x.hash.bytes ∧
      ∀ y ∈ before, ∀ other, trusted.Records y.slot.toNat other → other = y.hash := by
  induction entries with
  | nil => cases h
  | cons e rest ih =>
      rw [disagreement?] at h
      cases hheld : History.held e.slot trusted.entries with
      -- The trusted history does not record the slot, so that there is nothing to disagree about.
      | none =>
          simp only [hheld] at h
          obtain ⟨before, x, after, known, rfl, hknown, hne, ho, hbefore⟩ := ih h
          refine ⟨e :: before, x, after, known, rfl, hknown, hne, ho, ?_⟩
          rw [List.forall_mem_cons]
          refine ⟨?_, hbefore⟩
          intro other hother
          rw [← History.held_eq_some_iff, hheld] at hother
          cases hother
      | some known =>
          by_cases hsame : known = e.hash
          · simp only [hheld, if_pos hsame] at h
            obtain ⟨before, x, after, found, rfl, hfound, hne, ho, hbefore⟩ := ih h
            refine ⟨e :: before, x, after, found, rfl, hfound, hne, ho, ?_⟩
            rw [List.forall_mem_cons]
            refine ⟨?_, hbefore⟩
            intro other hother
            rw [← History.held_eq_some_iff, hheld] at hother
            rw [← Option.some.inj hother]
            exact hsame
          · simp only [hheld, if_neg hsame, Option.some.injEq] at h
            exact ⟨[], e, rest, known, rfl, History.held_eq_some_iff.1 hheld, hsame, h.symm,
              List.forall_mem_nil _⟩

section Newest

variable {given trusted : History}

theorem NewestDifference.differs {slot : Nat} {expected recorded : Bytes}
    (h : NewestDifference given trusted slot expected recorded) : given.Differs trusted slot :=
  ⟨recorded, expected, h.given_holds, h.trusted_holds, h.differ⟩

/-- The entries come in descending order, so that the first difference found is the newest. -/
theorem newestDifference_of_disagreement? {o : Objection}
    (h : disagreement? trusted given.entries = some o) :
    ∃ slot expected recorded, o = .disagreement slot expected recorded ∧
      NewestDifference given trusted slot expected recorded := by
  obtain ⟨before, x, after, known, hentries, hknown, hne, rfl, hbefore⟩ := disagreement?_eq_some h
  have hx : x ∈ given.entries := by
    rw [hentries]
    exact List.mem_append_right _ List.mem_cons_self
  refine ⟨_, _, _, rfl, ⟨x, hx, rfl, rfl⟩, History.holds_bytes_iff.2 hknown,
    fun hsame => hne (Bytes32.ext hsame.symm), ?_⟩
  rintro _ ⟨_, _, ⟨y, hy, rfl, rfl⟩, htrusted, hdiffer⟩
  have hdescending := SlotEntry.descending_iff_pairwise.1 given.descending
  rw [hentries, List.pairwise_append, List.pairwise_cons] at hdescending
  rw [hentries] at hy
  rcases List.mem_append.1 hy with hearlier | hlater
  · obtain ⟨e, he, hslot, rfl⟩ := htrusted
    exact absurd (congrArg Bytes32.bytes (hbefore y hearlier _ ⟨e, he, hslot, rfl⟩).symm) hdiffer
  · rcases List.mem_cons.1 hlater with rfl | hrest
    · exact Int.le_refl _
    · exact Int.ofNat_le.2 (Nat.le_of_lt (hdescending.2.1.1 y hrest))

/-- Two histories have one newest difference, if any: above it they agree. -/
theorem NewestDifference.unique {a b : Nat} {expected recorded other found : Bytes}
    (ha : NewestDifference given trusted a expected recorded)
    (hb : NewestDifference given trusted b other found) :
    a = b ∧ expected = other ∧ recorded = found := by
  obtain rfl : a = b :=
    Nat.le_antisymm (Int.ofNat_le.1 (hb.newest a ha.differs))
      (Int.ofNat_le.1 (ha.newest b hb.differs))
  exact ⟨rfl, ha.trusted_holds.unique hb.trusted_holds, ha.given_holds.unique hb.given_holds⟩

/-- The scan finds nothing just when the histories differ nowhere. -/
theorem disagreement?_eq_none_iff_differs :
    disagreement? trusted given.entries = none ↔ ∀ slot, ¬ given.Differs trusted slot := by
  constructor
  · rintro hnone _ ⟨_, _, ⟨e, he, rfl, rfl⟩, ⟨other, hother, hsame, rfl⟩, hdiffer⟩
    have hagree := disagreement?_eq_none_iff.1 hnone e he other.hash ⟨other, hother, hsame, rfl⟩
    exact hdiffer (congrArg Bytes32.bytes hagree.symm)
  · intro hagree
    cases hfound : disagreement? trusted given.entries with
    | none => rfl
    | some o =>
        obtain ⟨slot, _, _, -, hnewest⟩ := newestDifference_of_disagreement? hfound
        exact absurd hnewest.differs (hagree slot)

end Newest

/-! ### The decision

The conditions are looked at in a fixed order, so that exactly one of them is the first to be
violated if not all of them hold. -/

section Decision

variable {s : Settings} {e : SlotExhibit} {slot : Int} {bankHash : Bytes} {trusted : History}

/-- Both histories hold the bank hash for the slot, and they differ nowhere. -/
structure Agrees (s : Settings) (e : SlotExhibit) (slot : Int) (bankHash : Bytes)
    (trusted : History) : Prop where
  slot_eq : e.slot = slot
  size_le : e.history.size ≤ s.historyWindow
  given_holds : e.history.Holds slot bankHash
  trusted_holds : trusted.Holds slot bankHash
  same : ∀ shared, ¬ e.history.Differs trusted shared

/-- Each condition is looked at in its turn. -/
theorem agrees_or_firstViolated :
    (e.objection? s slot bankHash trusted = none ∧ e.Agrees s slot bankHash trusted) ∨
      ∃ o, e.objection? s slot bankHash trusted = some o ∧
        e.FirstViolated s slot bankHash trusted o := by
  -- The conditions in the order of the objections; what has been passed is kept for the cases after
  -- it.
  unfold objection?
  by_cases hslot : e.slot = slot
  swap
  · rw [if_pos hslot]
    exact .inr ⟨_, rfl, .otherSlot hslot⟩
  rw [if_neg (Decidable.not_not.2 hslot)]
  by_cases hsize : e.history.size ≤ s.historyWindow
  swap
  · rw [if_pos (Nat.not_le.1 hsize)]
    exact .inr ⟨_, rfl, .tooLong hslot (Nat.not_le.1 hsize)⟩
  rw [if_neg (Nat.not_lt.2 hsize)]
  cases hrecorded : e.history.get? slot with
  | none => exact .inr ⟨_, rfl, .missing hslot hsize (History.get?_eq_none_iff.1 hrecorded)⟩
  | some recorded =>
      have hgiven : e.history.Holds slot recorded.bytes := History.holds_iff.2 ⟨_, hrecorded, rfl⟩
      by_cases hhash : recorded.bytes = bankHash
      swap
      · simp only [if_pos hhash]
        exact .inr ⟨_, rfl, .otherHash hslot hsize hgiven hhash⟩
      subst hhash
      simp only [if_neg (Decidable.not_not.2 (Eq.refl recorded.bytes))]
      cases hknown : trusted.get? slot with
      | none =>
          exact .inr ⟨_, rfl, .untrusted hslot hsize hgiven (History.get?_eq_none_iff.1 hknown)⟩
      | some known =>
          have htrusted : trusted.Holds slot known.bytes := History.holds_iff.2 ⟨_, hknown, rfl⟩
          by_cases hother : known.bytes = recorded.bytes
          swap
          · simp only [if_pos hother]
            exact .inr ⟨_, rfl, .otherTrustedHash hslot hsize hgiven htrusted hother⟩
          rw [hother] at htrusted
          simp only [if_neg (Decidable.not_not.2 hother)]
          cases hfound : disagreement? trusted e.history.entries with
          | none =>
              exact .inl ⟨rfl, hslot, hsize, hgiven, htrusted,
                disagreement?_eq_none_iff_differs.1 hfound⟩
          | some o =>
              obtain ⟨shared, x, y, rfl, hnewest⟩ := newestDifference_of_disagreement? hfound
              exact .inr ⟨_, rfl, .disagreement hslot hsize hgiven htrusted hnewest⟩

/-- Evidence that satisfies all conditions meets no objection. -/
theorem Agrees.objection?_eq_none (h : e.Agrees s slot bankHash trusted) :
    e.objection? s slot bankHash trusted = none := by
  obtain ⟨given, hgiven, rfl⟩ := History.holds_iff.1 h.given_holds
  obtain ⟨known, hknown, hsame⟩ := History.holds_iff.1 h.trusted_holds
  simp only [objection?, if_neg (Decidable.not_not.2 h.slot_eq), if_neg (Nat.not_lt.2 h.size_le),
    hgiven, hknown, if_neg (Decidable.not_not.2 (Eq.refl given.bytes)),
    if_neg (Decidable.not_not.2 hsame)]
  exact disagreement?_eq_none_iff_differs.2 h.same

/-- Evidence meets no objection just when it satisfies all conditions. -/
theorem objection?_eq_none_iff :
    e.objection? s slot bankHash trusted = none ↔ e.Agrees s slot bankHash trusted := by
  constructor
  · intro hnone
    rcases agrees_or_firstViolated with ⟨-, hagrees⟩ | ⟨o, hsome, -⟩
    · exact hagrees
    · rw [hnone] at hsome
      cases hsome
  · exact Agrees.objection?_eq_none

/-- A history is accepted as evidence just when it is for the slot and not too long, both histories
record the bank hash for the slot, and they agree on every slot that is in both. -/
theorem verify_ok_iff {hash : Bytes32} :
    (e.verify s slot hash.bytes trusted).ok = true ↔
      e.slot = slot ∧ e.history.size ≤ s.historyWindow ∧ e.history.Records slot hash ∧
        trusted.Records slot hash ∧
        ∀ shared given known, e.history.Records shared given → trusted.Records shared known →
          known = given := by
  rw [verify_ok_iff_objection?, objection?_eq_none_iff]
  constructor
  · intro h
    refine ⟨h.slot_eq, h.size_le, History.holds_bytes_iff.1 h.given_holds,
      History.holds_bytes_iff.1 h.trusted_holds, ?_⟩
    intro shared given known hgiven hknown
    by_contra hne
    exact h.same shared ⟨_, _, History.holds_bytes_iff.2 hgiven, History.holds_bytes_iff.2 hknown,
      fun hsame => hne (Bytes32.ext hsame.symm)⟩
  · rintro ⟨hslot, hsize, hgiven, hknown, hsame⟩
    refine ⟨hslot, hsize, History.holds_bytes_iff.2 hgiven, History.holds_bytes_iff.2 hknown, ?_⟩
    rintro shared ⟨_, _, ⟨x, hx, hslotX, rfl⟩, ⟨y, hy, hslotY, rfl⟩, hdiffer⟩
    have hagree := hsame shared x.hash y.hash ⟨x, hx, hslotX, rfl⟩ ⟨y, hy, hslotY, rfl⟩
    exact hdiffer (congrArg Bytes32.bytes hagree.symm)

end Decision

/-! ### What a rejection tells

The code and the details name the history that lacks the slot and where the slot would lie, or the
two hashes that should be equal. -/

end SlotExhibit

end SlotEvidence
