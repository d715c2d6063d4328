/-
Module: SlotEvidence.Proofs.History.Evidence
Purpose: A history offered as evidence for the bank hash of a slot is accepted when there is no
  objection to it.  The verdict has the shape of verdicts, and it is missing only where a slot that
  is given has no text.  The scan for a slot on which the two histories differ ends without one when
  there is none.
Trusted boundary: none
Main exports: SlotExhibit.verify_ok_iff_objection?, SlotExhibit.verify_settles,
  SlotExhibit.Objection.ruling_settles, SlotExhibit.disagreement?_eq_none_iff
-/
import SlotEvidence.History.Evidence
import SlotEvidence.Proofs.History
import SlotEvidence.Proofs.Outcome
import SlotEvidence.Proofs.Ruling

namespace SlotEvidence

namespace History

/-- A slot that a history records has a text, because it fits in eight bytes. -/
theorem Records.writable {h : History} {slot : Int} {hash : Bytes32}
    (hrecords : h.Records slot hash) : Text.Writable slot := by
  obtain ⟨e, -, rfl, -⟩ := hrecords
  exact Text.writable_uint64 e.slot

/-- What is said of a missing slot is refused for none but this slot. -/
theorem eq_of_notFoundMessage {h : History} {slot : Int} {source : String}
    {refusal : Text.Overlong} (hrefused : h.notFoundMessage slot source = .error refusal) :
    refusal.number = slot := by
  rw [notFoundMessage, bind_eq_error] at hrefused
  rcases hrefused with hrefused | ⟨_, _, hrefused⟩
  · exact Text.Overlong.eq_of_decimal hrefused
  · cases hrefused

/-- There is a verdict on a missing slot unless the slot is too long to be told. -/
theorem notFound_settles (h : History) (slot : Int) (source : Source) {names : List String}
    (hnames : names ≠ []) : (h.notFound slot source).Settles (Verdict.Staged names) [slot] :=
  Ruling.settles_rejected
    (fun _ hrefused => List.mem_singleton.2 (eq_of_notFoundMessage hrefused))
    fun _ => Verdict.staged_rejected hnames (by simp [notFoundDetails, Members.names])

end History

namespace SlotExhibit

/-! ### Rejections

The message of an objection shows the slots that it is about.  A slot that a history records has
eight bytes and can always be shown, so that only the slot that is asked for and the one that the
evidence names can be refused. -/

/-- The slots that are shown by the message for an objection and may have no text. -/
def Objection.slots : Objection → List Int
  | .otherSlot given wanted => [given, wanted]
  | .tooLong _ _ | .disagreement _ _ _ => []
  | .missing slot _ | .otherHash slot _ _ | .untrusted slot _ | .otherTrustedHash slot _ _ => [slot]

/-- What is said of an objection is refused for none but a slot that it shows. -/
theorem Objection.mem_slots_of_message {o : Objection} {refusal : Text.Overlong}
    (h : o.message = .error refusal) : refusal.number ∈ o.slots := by
  have hslot : ∀ {slot : Int} {f : String → String},
      (do return f (← Text.decimal slot)) = (Except.error refusal : Except Text.Overlong String) →
        refusal.number = slot := by
    intro slot f hrefused
    rw [bind_eq_error] at hrefused
    rcases hrefused with hrefused | ⟨_, _, hrefused⟩
    · exact Text.Overlong.eq_of_decimal hrefused
    · cases hrefused
  cases o with
  | otherSlot given wanted =>
      rw [message, bind_eq_error] at h
      rcases h with h | ⟨text, -, h⟩
      · exact List.mem_cons.2 (.inl (Text.Overlong.eq_of_decimal h))
      · exact List.mem_cons_of_mem _ (List.mem_singleton.2 (hslot h))
  | tooLong => cases h
  | missing slot history => exact List.mem_singleton.2 (History.eq_of_notFoundMessage h)
  | otherHash => exact List.mem_singleton.2 (hslot h)
  | untrusted slot trusted => exact List.mem_singleton.2 (History.eq_of_notFoundMessage h)
  | otherTrustedHash => exact List.mem_singleton.2 (hslot h)
  | disagreement => cases h

/-- An objection comes to its rejection unless a slot in the message has no text. -/
theorem Objection.ruling_settles (o : Objection) {P : Verdict → Prop}
    (h : ∀ text, P (.rejected .slotHistory o.code text o.details History.checkName)) :
    o.ruling.Settles P o.slots :=
  Ruling.settles_rejected (fun _ => mem_slots_of_message) h

section Verify

variable {s : Settings} {e : SlotExhibit} {slot : Int} {bankHash : Bytes} {trusted : History}

/-- A disagreement of histories shows slots of eight bytes only, all of which have a text. -/
theorem slots_of_disagreement? {entries : List SlotEntry} {o : Objection}
    (h : disagreement? trusted entries = some o) : o.slots = [] := by
  fun_induction disagreement? trusted entries with
  | case1 => cases h
  | case2 e rest hheld ih => exact ih h
  | case3 e rest known hheld hsame =>
      cases h
      rfl
  | case4 e rest hheld ih => exact ih h

/-- The slots that an objection shows are the one of the evidence and the one that is asked for. -/
theorem slots_subset_of_objection? {o : Objection}
    (h : e.objection? s slot bankHash trusted = some o) : o.slots ⊆ [e.slot, slot] := by
  have hasked : [slot] ⊆ [e.slot, slot] := List.subset_cons_self _ _
  unfold objection? at h
  split at h
  · cases h
    exact fun _ hmem => hmem
  · split at h
    · cases h
      exact List.nil_subset _
    · split at h
      · cases h
        exact hasked
      · split at h
        · cases h
          exact hasked
        · split at h
          · cases h
            exact hasked
          · split at h
            · cases h
              exact hasked
            · rw [slots_of_disagreement? h]
              exact List.nil_subset _

/-- A slot to which there is no objection is one that the history records. -/
theorem writable_of_objection?_eq_none (h : e.objection? s slot bankHash trusted = none) :
    Text.Writable slot := by
  cases hget : e.history.get? slot with
  | some recorded => exact (History.get?_eq_some_iff.1 hget).writable
  | none =>
      unfold objection? at h
      split at h
      · cases h
      · split at h
        · cases h
        · simp [hget] at h

/-- The objection decides the verdict. -/
theorem verify_of_objection? {o : Objection} (h : e.objection? s slot bankHash trusted = some o) :
    e.verify s slot bankHash trusted = o.ruling := by
  rw [verify, h]

/-- Without an objection the history is accepted, and the message can be written. -/
theorem verify_of_objection?_eq_none (h : e.objection? s slot bankHash trusted = none) :
    ∃ message details, e.verify s slot bankHash trusted =
      Except.ok (.accepted [.passed History.checkName (some .slotHistory) message details]) := by
  simp only [verify, h, Text.decimal_of_writable (writable_of_objection?_eq_none h)]
  exact ⟨_, _, rfl⟩

/-- The evidence is accepted just when there is no objection. -/
theorem verify_ok_iff_objection? :
    (e.verify s slot bankHash trusted).ok = true ↔ e.objection? s slot bankHash trusted = none := by
  cases hobjection : e.objection? s slot bankHash trusted with
  | some o => simp [verify_of_objection? hobjection, Objection.ruling]
  | none =>
      obtain ⟨message, details, haccepted⟩ := verify_of_objection?_eq_none hobjection
      simp [haccepted]

/-- There is a verdict unless the slot of the evidence, or the one asked for, is too long to be
told. -/
theorem verify_settles (s : Settings) (e : SlotExhibit) (slot : Int) (bankHash : Bytes)
    (trusted : History) :
    (e.verify s slot bankHash trusted).Settles (Verdict.Staged [History.checkName])
      [e.slot, slot] := by
  cases hobjection : e.objection? s slot bankHash trusted with
  | some o =>
      rw [verify_of_objection? hobjection]
      refine (o.ruling_settles fun _ => Verdict.staged_rejected (List.cons_ne_nil _ _) ?_).mono
        (slots_subset_of_objection? hobjection)
      cases o <;> simp [Objection.details, History.notFoundDetails, Members.names]
  | none =>
      obtain ⟨message, details, haccepted⟩ := verify_of_objection?_eq_none hobjection
      rw [haccepted]
      exact .told (Verdict.staged_passed _ _ _ _)

end Verify

/-- There is no objection to entries just when the trusted history has no other hash for one of
their slots. -/
theorem disagreement?_eq_none_iff {trusted : History} {entries : List SlotEntry} :
    disagreement? trusted entries = none ↔
      ∀ e ∈ entries, ∀ known, trusted.Records e.slot.toNat known → known = e.hash := by
  simp only [← History.held_eq_some_iff]
  induction entries with
  | nil => simp [disagreement?]
  | cons e rest ih =>
      cases hheld : History.held e.slot trusted.entries with
      | none => simp [disagreement?, hheld, ih]
      | some known =>
          by_cases hsame : known = e.hash
          · simp [disagreement?, hheld, hsame, ih]
          · simp [disagreement?, hheld, hsame]

end SlotExhibit

end SlotEvidence
