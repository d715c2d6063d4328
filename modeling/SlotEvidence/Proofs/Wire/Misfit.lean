/-
Module: SlotEvidence.Proofs.Wire.Misfit
Purpose: Why data that fit their schema can make no evidence.  The schema leaves two reasons: a
  hash text with a line feed after its digits, and a history that is not in descending order.  No
  other fault of hashes, commitments, banks or histories is left to be met.
Trusted boundary: none
Main exports: Wire.Misfit.Occurs, Wire.Tame, Wire.TameReader, Wire.tame_readPayload
-/
import SlotEvidence.Proofs.Wire.Conversion
import SlotEvidence.Proofs.Wire.Portable

namespace SlotEvidence

namespace Wire

open Schema

/-! ### The reasons that are left

Two reasons are left when the schema has done its work, and neither shows an integer that could be
too long. -/

/-- The misfits that data can have which fit their schema. -/
inductive Misfit.Occurs : Misfit → Prop
  | lineFeed : Occurs (.hash (.oddLength (2 * hashLength + 1)))
  | order {position previous slot : Nat} (h : previous ≤ slot) :
      Occurs (.history (.notDescending position previous slot))

/-- What is made has no misfit but one that occurs. -/
def Tame {α : Type} (made : Made α) : Prop := ∀ reason, made = .error reason → reason.Occurs

/-- What is read from data that fit is tame. -/
def TameReader {α : Type} (read : Value → Checked (Made α)) : Prop :=
  ∀ value made, read value = .ok made → Tame made

section Tame

variable {α β : Type}

theorem tame_ok (a : α) : Tame (.ok a) := fun _ => nofun

theorem Tame.bind {made : Made α} {f : α → Made β} (h : Tame made)
    (hf : ∀ a, made = .ok a → Tame (f a)) : Tame (made >>= f) := by
  intro reason herror
  rcases bind_eq_error.1 herror with herror | ⟨a, ha, herror⟩
  · exact h reason herror
  · exact hf a ha reason herror

theorem Tame.map {made : Made α} (h : Tame made) (f : α → β) : Tame (made.map f) := by
  cases made with
  | error reason => exact fun _ herror => by cases herror; exact h reason rfl
  | ok a => exact tame_ok (f a)

/-- A list is tame if its elements are. -/
theorem tame_all {items : List (Made α)} (h : ∀ item ∈ items, Tame item) :
    Tame (Made.all items) := by
  induction items with
  | nil => exact tame_ok []
  | cons item rest ih =>
      obtain ⟨hitem, hrest⟩ := List.forall_mem_cons.1 h
      exact hitem.bind fun _ _ => (ih hrest).bind fun _ _ => tame_ok _

theorem TameReader.list {read : Value → Checked (Made α)} (h : TameReader read) {value : Value}
    {items : List (Made α)} (hread : listOf read value = .ok items) :
    ∀ item ∈ items, Tame item := by
  intro item hitem
  obtain ⟨_, _, -, -, hvalue⟩ := exists_read_of_listOf hread hitem
  exact h _ _ hvalue

/-- A field is read by the reader of its value. -/
theorem TameReader.field {read : Value → Checked (Made α)} (h : TameReader read)
    {entries : List (Value × Value)} {name : String} {made : Made α}
    (hread : required entries name read = .ok made) : Tame made := by
  obtain ⟨value, -, hvalue⟩ := required_eq_ok.1 hread
  exact h _ _ hvalue

theorem TameReader.map {read : Value → Checked (Made α)} (h : TameReader read) (make : α → β) :
    TameReader fun value => (read value).map fun made => made.map make := by
  intro value made hread
  obtain ⟨inner, hinner, rfl⟩ := map_eq_ok.1 hread
  exact (h _ _ hinner).map make

/-- What fails over a line feed alone is tame. -/
theorem FailsJust.tame {made : Made α} {p : Prop} (h : FailsJust p made) : Tame made := by
  intro reason herror
  by_cases hp : p
  · rw [h.fails hp] at herror
    cases herror
    exact .lineFeed
  · obtain ⟨a, ha⟩ := h.makes hp
    rw [ha] at herror
    cases herror

theorem Converts.tame {hashTexts : Value → List Value} {read : Value → Checked (Made α)}
    (h : Converts hashTexts read) : TameReader read :=
  fun value made hread => (h value made hread).tame

end Tame

/-! ### Histories

The slots of a history have eight bytes once they are read, so that only their order can be at
fault. -/

/-- An entry of a history that fits the schema has at most a misfit that occurs. -/
theorem tame_readSlotEntry : TameReader readSlotEntry := by
  intro value made h
  obtain ⟨entries, -, hfields⟩ := exists_fields h
  simp only [map_eq_ok, both_eq_ok] at hfields
  obtain ⟨⟨slot, hash⟩, ⟨-, hhash⟩, rfl⟩ := hfields
  exact Tame.bind (failsJust_requiredHash hhash).tame fun _ _ => tame_ok _

/-- An entry that is read fits: its slot has eight bytes and its hash the length of one. -/
theorem pairFits_of_readSlotEntry {value : Value} {pair : Int × Bytes}
    (h : readSlotEntry value = .ok (.ok pair)) : History.PairFits pair := by
  obtain ⟨entries, -, hfields⟩ := exists_fields h
  simp only [map_eq_ok, both_eq_ok, bind_eq_ok] at hfields
  obtain ⟨⟨slot, _⟩, ⟨hslot, hhash⟩, hash, rfl, hpair⟩ := hfields
  cases hpair
  obtain ⟨hnonneg, hlt⟩ := slotFits_of_requiredSlot hslot
  exact ⟨hnonneg, hlt, length_of_requiredHash hhash⟩

/-- The pairs of a history are in order or they are not: nothing else keeps them from making a
history. -/
theorem tame_readSlotExhibit : TameReader readSlotExhibit := by
  intro value made h
  obtain ⟨fields, -, hfields⟩ := exists_fields h
  simp only [map_eq_ok, both_eq_ok, required_eq_ok] at hfields
  obtain ⟨⟨slot, items⟩, ⟨-, ⟨_, -, hitems⟩⟩, rfl⟩ := hfields
  dsimp only at hitems
  refine Tame.bind (tame_all (tame_readSlotEntry.list hitems)) fun pairs hpairs => ?_
  have hfit : ∀ pair ∈ pairs, History.PairFits pair := by
    intro pair hpair
    have hitem := made_all_eq_ok.1 hpairs
    dsimp only at hitem
    have hmade : Except.ok pair ∈ items := hitem ▸ List.mem_map_of_mem hpair
    obtain ⟨_, _, -, -, hvalue⟩ := exists_read_of_listOf hitems hmade
    exact pairFits_of_readSlotEntry hvalue
  refine Tame.bind ?_ fun _ _ => tame_ok _
  intro reason herror
  obtain ⟨fault, hfault, rfl⟩ := mapError_eq_error.1 herror
  obtain ⟨position, previous, slot, rfl, hle⟩ := History.fault_of_ofPairs hfit hfault
  exact .order hle

/-! ### Compound evidence -/

/-- The evidence for one blob that fits the schema has at most a misfit that occurs. -/
theorem tame_readEntry : TameReader readEntry := by
  intro value made h
  obtain ⟨entries, -, hfields⟩ := exists_fields h
  simp only [map_eq_ok, both_eq_ok] at hfields
  obtain ⟨⟨blob, path⟩, ⟨hblob, hpath⟩, rfl⟩ := hfields
  refine Tame.bind (converts_readBlob.tame.field hblob) fun _ _ => ?_
  exact Tame.bind (converts_readPath.tame.field hpath) fun _ _ => tame_ok _

theorem tame_readCompoundInclusion : TameReader readCompoundInclusion := by
  intro value made h
  obtain ⟨entries, -, hfields⟩ := exists_fields h
  simp only [map_eq_ok, both_eq_ok, required_eq_ok] at hfields
  obtain ⟨⟨slot, bank, exhibit, items⟩,
    ⟨-, ⟨_, -, hbank⟩, ⟨_, -, hexhibit⟩, ⟨_, -, hitems⟩⟩, rfl⟩ := hfields
  refine Tame.bind (converts_readBank.tame _ _ hbank) fun _ _ => ?_
  refine Tame.bind (tame_readSlotExhibit _ _ hexhibit) fun _ _ => ?_
  exact Tame.bind (tame_all (tame_readEntry.list hitems)) fun _ _ => tame_ok _

theorem tame_readCompoundCompleteness : TameReader readCompoundCompleteness := by
  intro value made h
  obtain ⟨entries, -, hfields⟩ := exists_fields h
  simp only [map_eq_ok, both_eq_ok, required_eq_ok] at hfields
  obtain ⟨⟨slot, bank, exhibit, absence⟩,
    ⟨-, ⟨_, -, hbank⟩, ⟨_, -, hexhibit⟩, ⟨_, -, habsence⟩⟩, rfl⟩ := hfields
  refine Tame.bind (converts_readBank.tame _ _ hbank) fun _ _ => ?_
  refine Tame.bind (tame_readSlotExhibit _ _ hexhibit) fun _ _ => ?_
  exact Tame.bind (converts_readAbsence.tame _ _ habsence) fun _ _ => tame_ok _

/-! ### Payloads -/

/-- No payload, of whatever kind, has a misfit but those that occur. -/
theorem tame_readPayload (kind : EvidenceKind) : TameReader (readPayload kind) := by
  cases kind with
  | inclusion => exact converts_readPath.tame.map Evidence.inclusion
  | exclusion => exact converts_readAbsence.tame.map Evidence.exclusion
  | blob => exact converts_readBlob.tame.map Evidence.blob
  | bankHash => exact converts_readBank.tame.map Evidence.bankHash
  | slotHash => exact tame_readSlotExhibit.map Evidence.slotHash
  | compoundInclusion => exact tame_readCompoundInclusion.map Evidence.compoundInclusion
  | compoundCompleteness =>
      exact tame_readCompoundCompleteness.map Evidence.compoundCompleteness

end Wire

end SlotEvidence
