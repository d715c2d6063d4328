/-
Module: SlotEvidence.Proofs.Json.Exact
Purpose: JSON values without floating-point numbers in which no name comes twice.  They can be read
  back, and their canonical text is ASCII.
Trusted boundary: none
Main exports: Json.Exact, Json.Exact.legible, Json.Ascii, Json.Exact.ascii_render
-/
import SlotEvidence.Proofs.Hex
import SlotEvidence.Proofs.Json.RoundTrip

namespace SlotEvidence

namespace Json

/-- A value without floating-point numbers, no object of which has two members of one name. -/
inductive Exact : Json → Prop where
  | null : Exact .null
  | bool (b : Bool) : Exact (.bool b)
  | int (n : Int) : Exact (.int n)
  | text (s : String) : Exact (.text s)
  | array {items : List Json} (h : ∀ item ∈ items, Exact item) : Exact (.array items)
  | object {members : Members Json} (hdistinct : members.names.Nodup)
      (h : ∀ member ∈ members, Exact member.2) : Exact (.object members)

/-- An exact value is legible, for the numbers in it are integers. -/
theorem Exact.legible {value : Json} (h : value.Exact) : value.Legible := by
  induction h with
  | null => exact .null
  | bool b => exact .bool b
  | int n => exact .int n
  | text s => exact .text s
  | array _ ih => exact .array ih
  | object hdistinct _ ih => exact .object hdistinct ih

/-! ### ASCII

Whatever is beyond ASCII in a text is escaped, so that the bytes of a canonical text do not depend
on an encoding. -/

/-- All characters are ASCII. -/
def Ascii (chars : List Char) : Prop := ∀ c ∈ chars, c.toNat < 128

theorem ascii_of_all {chars : List Char} (h : chars.all (·.toNat < 128) = true) : Ascii chars :=
  fun c hc => of_decide_eq_true (List.all_eq_true.1 h c hc)

theorem ascii_nil : Ascii [] := nofun

theorem ascii_cons {c : Char} {chars : List Char} :
    Ascii (c :: chars) ↔ c.toNat < 128 ∧ Ascii chars :=
  List.forall_mem_cons

theorem ascii_append {first second : List Char} :
    Ascii (first ++ second) ↔ Ascii first ∧ Ascii second :=
  List.forall_mem_append

theorem ascii_hexDigits (width n : Nat) : Ascii (Text.hexDigits width n) := by
  induction width generalizing n with
  | zero => exact ascii_nil
  | succ width ih =>
      have hlast : (Hex.digit (n % 16)).toNat < 128 := Hex.toNat_digit_lt (Nat.mod_lt n (by decide))
      exact ascii_append.2 ⟨ih _, ascii_cons.2 ⟨hlast, ascii_nil⟩⟩

theorem ascii_escapeUnit (n : Nat) : Ascii (escapeUnit n) :=
  ascii_cons.2 ⟨by decide, ascii_cons.2 ⟨by decide, ascii_hexDigits 4 n⟩⟩

/-- The form of a character is ASCII: what is not is written in digits. -/
theorem ascii_escapeChar (c : Char) : Ascii (escapeChar c) := by
  have hletter : ∀ d : Char, d.toNat < 128 → Ascii ['\\', d] := fun d hd =>
    ascii_cons.2 ⟨by decide, ascii_cons.2 ⟨hd, ascii_nil⟩⟩
  unfold escapeChar
  repeat' split
  any_goals exact hletter _ (by decide)
  · rename_i hraw
    exact ascii_cons.2 ⟨Nat.lt_succ_of_lt hraw.2, ascii_nil⟩
  · exact ascii_escapeUnit _
  · exact ascii_append.2 ⟨ascii_escapeUnit _, ascii_escapeUnit _⟩

/-- Whatever is no ASCII character is escaped in a text. -/
theorem ascii_renderText (s : String) : Ascii (renderText s) := by
  refine ascii_cons.2 ⟨by decide, ascii_append.2 ⟨?_, ascii_cons.2 ⟨by decide, ascii_nil⟩⟩⟩
  intro c hc
  obtain ⟨d, -, hd⟩ := List.mem_flatMap.1 hc
  exact ascii_escapeChar d c hd

theorem ascii_toDigits (n : Nat) : Ascii (Nat.toDigits 10 n) := by
  intro c hc
  have hdigit : c.isDigit = true := Nat.isDigit_of_mem_toDigits (by decide) (by decide) hc
  simp only [Char.isDigit, Bool.and_eq_true, decide_eq_true_eq, UInt32.le_iff_toNat_le] at hdigit
  exact Nat.lt_of_le_of_lt hdigit.2 (by decide)

theorem ascii_toString (n : Int) : Ascii (toString n).toList := by
  cases n with
  | ofNat n =>
      rw [toList_toString_ofNat]
      exact ascii_toDigits n
  | negSucc n =>
      rw [toList_toString_negSucc]
      exact ascii_cons.2 ⟨by decide, ascii_toDigits _⟩

theorem ascii_commaSeparated {parts : List (List Char)} (h : ∀ part ∈ parts, Ascii part) :
    Ascii (commaSeparated parts) := by
  cases parts with
  | nil => exact ascii_nil
  | cons part rest =>
      obtain ⟨hpart, hrest⟩ := List.forall_mem_cons.1 h
      rw [commaSeparated_cons]
      refine ascii_append.2 ⟨hpart, ?_⟩
      intro c hc
      obtain ⟨other, hother, hc⟩ := List.mem_flatMap.1 hc
      exact ascii_cons.2 ⟨by decide, hrest other hother⟩ c hc

/-- Parts between two ASCII brackets. -/
theorem ascii_bracketed {left right : Char} (hleft : left.toNat < 128) (hright : right.toNat < 128)
    {parts : List (List Char)} (h : ∀ part ∈ parts, Ascii part) :
    Ascii (left :: commaSeparated parts ++ [right]) :=
  ascii_cons.2 ⟨hleft,
    ascii_append.2 ⟨ascii_commaSeparated h, ascii_cons.2 ⟨hright, ascii_nil⟩⟩⟩

/-- The canonical text of an exact value is ASCII, so that its bytes are its characters. -/
theorem Exact.ascii_render {value : Json} (h : value.Exact) : Ascii value.render := by
  induction h with
  | null => exact ascii_of_all (by decide)
  | bool b => cases b <;> exact ascii_of_all (by decide)
  | int n => exact ascii_toString n
  | text s => exact ascii_renderText s
  | array _ ih =>
      rw [render, renderItems_eq_map]
      exact ascii_bracketed (by decide) (by decide) (List.forall_mem_map.2 ih)
  | object _ _ ih =>
      rw [render, renderMembers_eq_map, sortMembers_map, List.map_map]
      refine ascii_bracketed (by decide) (by decide) (List.forall_mem_map.2 ?_)
      intro member hmember
      have hvalue := ih member ((sortMembers_perm _).mem_iff.1 hmember)
      exact ascii_append.2 ⟨ascii_renderText _, ascii_cons.2 ⟨by decide, hvalue⟩⟩

end Json

end SlotEvidence
