/-
Module: SlotEvidence.Proofs.Schema.Integers
Purpose: What is read as an integer can be written again, if the data hold no integer that is too
  long: a text that writes one has no more digits than are read, and the other values that stand
  for integers stand for small ones.
Trusted boundary: none
Main exports: Schema.writable_of_integerOfText, Schema.writable_of_natural,
  Schema.writable_of_member?, Schema.writable_of_mem_list, Schema.writable_of_mapping
-/
import SlotEvidence.Proofs.Members
import SlotEvidence.Proofs.Schema
import SlotEvidence.Proofs.Text.Integer
import SlotEvidence.Proofs.Value.Integers
import SlotEvidence.Proofs.Value.Number

namespace SlotEvidence

namespace Schema

/-! ### Texts -/

theorem value_lt_of_isDigit {c : Char} (h : c.isDigit = true) : c.toNat - '0'.toNat < 10 := by
  simp only [Char.isDigit, Bool.and_eq_true, decide_eq_true_eq, UInt32.le_iff_toNat_le] at h
  have hhigh : c.toNat ≤ 57 := h.2
  exact Nat.lt_of_le_of_lt (Nat.sub_le_sub_right hhigh _) (by decide)

/-- A row of digits within the limit writes an integer that has a text. -/
theorem writable_of_readPlain {chars : List Char} {n : Int} (h : readPlain chars = .ok n) :
    Text.Writable n := by
  unfold readPlain at h
  split at h
  rename_i negative digits _
  dsimp only at h
  split at h
  · cases h
    exact Text.writable_of_lt_size (n := 0) (by decide)
  · split at h
    · exact absurd h refuse_ne_ok
    · -- a minus counts as one more digit, so that there are no more digits than are counted
      have hcount : (digits.takeWhile Char.isDigit).length ≤
          if negative then (digits.takeWhile Char.isDigit).length + 1
          else (digits.takeWhile Char.isDigit).length := by
        split
        · exact Nat.le_succ _
        · exact Nat.le_refl _
      generalize (if negative then _ else _ : Nat) = count at h hcount
      split at h
      · exact absurd h refuse_ne_ok
      · rename_i hlimit
        split at h
        · exact absurd h refuse_ne_ok
        · cases h
          refine Text.writable_signed ?_ ?_ negative
          · rw [List.length_map]
            exact Nat.le_trans hcount (Nat.le_of_not_lt hlimit)
          · refine List.forall_mem_map.2 fun c hc => ?_
            exact value_lt_of_isDigit (List.mem_takeWhile_imp hc)

/-- An integer that a schema takes from a text has a text, since the digits of the text are counted.
-/
theorem writable_of_integerOfText {s : String} {n : Int} (h : integerOfText s = .ok n) :
    Text.Writable n := by
  unfold integerOfText at h
  dsimp only at h
  split at h
  · exact writable_of_readPlain h
  · exact absurd h refuse_ne_ok

/-! ### Values

What a schema makes of a value is its integer, the digits of its text or the integer part of its
float. -/

/-- Only an integer that is given as such can be too long. -/
theorem writable_of_anyInteger {value : Value} {n : Int} (hvalue : value.Writable)
    (h : anyInteger value = .ok n) : Text.Writable n := by
  unfold anyInteger at h
  split at h
  · cases h
    exact Value.writable_int_iff.1 hvalue
  · rename_i b
    cases h
    cases b with
    | true => exact Text.writable_of_lt_size (n := 1) (by decide)
    | false => exact Text.writable_of_lt_size (n := 0) (by decide)
  · rename_i x
    unfold wholeNumber at h
    split at h
    · exact absurd h refuse_ne_ok
    · rename_i m hm
      split at h
      · exact absurd h refuse_ne_ok
      · split at h
        · cases h
          exact Binary64.writable_of_truncate? hm
        · exact absurd h refuse_ne_ok
  · exact writable_of_integerOfText h
  · split at h
    · exact writable_of_integerOfText h
    · exact absurd h refuse_ne_ok
  · exact absurd h refuse_ne_ok

/-- A natural number that a schema takes from a value has a text, if the integers of the value have.
-/
theorem writable_of_natural {maximum? : Option Nat} {value : Value} {n : Nat}
    (hvalue : value.Writable) (h : natural maximum? value = .ok n) : Text.Writable n := by
  obtain ⟨m, hm, h⟩ := bind_eq_ok.1 h
  have hwritable := writable_of_anyInteger hvalue hm
  split at h
  · exact absurd h refuse_ne_ok
  · rename_i hnonneg
    have hn : n = m.toNat := by
      split at h
      · split at h
        · exact absurd h refuse_ne_ok
        · cases h
          rfl
      · cases h
        rfl
    rwa [hn, Int.toNat_of_nonneg (Int.not_lt.1 hnonneg)]

/-! ### Parts of data

The parts of data that can be written can be written themselves. -/

/-- A field of a writable record is writable. -/
theorem writable_of_member? {entries : List (Value × Value)} {name : String} {value : Value}
    (hentries : (Value.mapping entries).Writable) (h : member? name entries = some value) :
    value.Writable := by
  fun_induction member? name entries with
  | case1 => cases h
  | case2 =>
      cases h
      exact (Value.writable_mapping_iff.1 hentries _ List.mem_cons_self).2
  | case3 _ _ _ _ ih =>
      refine ih (Value.writable_mapping_iff.2 fun entry hentry => ?_) h
      exact Value.writable_mapping_iff.1 hentries entry (List.mem_cons_of_mem _ hentry)
  | case4 _ _ _ ih =>
      refine ih (Value.writable_mapping_iff.2 fun other hother => ?_) h
      exact Value.writable_mapping_iff.1 hentries other (List.mem_cons_of_mem _ hother)

theorem writable_of_mem_list {value : Value} {items : List Value} (hvalue : value.Writable)
    (h : list value = .ok items) : ∀ item ∈ items, item.Writable := by
  unfold list at h
  split at h
  · cases h
    exact Value.forall_mem_itemIntegers.1 hvalue
  · cases h
    exact Value.forall_mem_itemIntegers.1 hvalue
  · cases h
    exact Value.forall_mem_itemIntegers.1 hvalue
  · exact absurd h refuse_ne_ok

theorem writable_of_textKeys {entries : List (Value × Value)} {members : List (String × Value)}
    (hentries : (Value.mapping entries).Writable) (h : textKeys entries = .ok members) :
    ∀ member ∈ members, member.2.Writable := by
  induction entries generalizing members with
  | nil =>
      cases h
      exact fun _ => nofun
  | cons entry rest ih =>
      obtain ⟨hentry, hrest⟩ := List.forall_mem_cons.1 (Value.writable_mapping_iff.1 hentries)
      simp only [textKeys, map_eq_ok, both_eq_ok] at h
      obtain ⟨⟨name, later⟩, ⟨-, hlater⟩, rfl⟩ := h
      exact List.forall_mem_cons.2 ⟨hentry.2, ih (Value.writable_mapping_iff.2 hrest) hlater⟩

/-- What is read as a mapping from texts is writable again. -/
theorem writable_of_mapping {value : Value} {members : Members Value} (hvalue : value.Writable)
    (h : mapping value = .ok members) : (Value.ofMembers members).Writable := by
  unfold mapping at h
  split at h
  · obtain ⟨given, hgiven, rfl⟩ := map_eq_ok.1 h
    refine Value.writable_mapping_iff.2 (List.forall_mem_map.2 fun member hmember => ⟨nofun, ?_⟩)
    exact writable_of_textKeys hvalue hgiven member (Members.mem_of_mem_ofList hmember)
  · exact absurd h refuse_ne_ok

end Schema

end SlotEvidence
