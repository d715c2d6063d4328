/-
Module: SlotEvidence.Proofs.Wire.Documented.Form
Purpose: The documented form of wire data: integer fields hold integers, and no field that has a
  default is left out.  Data that are read have this form just when they are alike what is written
  of what they are read as.
Trusted boundary: none
Main exports: Wire.SameText, Wire.WrittenOut, Wire.Complete, Wire.complete_of_alike,
  Wire.Faithful, Wire.Faithful.field, Wire.Faithful.listField, Wire.integerField, Wire.alike_object
-/
import SlotEvidence.Proofs.Json.Alike
import SlotEvidence.Proofs.Wire.Path

namespace SlotEvidence

namespace Wire

open Schema Json

/-! ### Documented data

Data in which every integer is written as one and no member with a standard value is left out. -/

/-- Texts count as the same that are equal, or are hash texts but for the case of their letters. -/
def SameText (s t : String) : Prop :=
  s = t ∨ isHashText s = true ∧ isHashText t = true ∧
    s.toList.map Char.toLower = t.toList.map Char.toLower

theorem sameText_refl (s : String) : SameText s s := .inl rfl

theorem sameText_trans {s t u : String} (hst : SameText s t) (htu : SameText t u) :
    SameText s u := by
  rcases hst with rfl | ⟨hs, ht, hst⟩
  · exact htu
  · rcases htu with rfl | ⟨-, hu, htu⟩
    · exact .inr ⟨hs, ht, hst⟩
    · exact .inr ⟨hs, hu, hst.trans htu⟩

theorem sameText_symm {s t : String} (h : SameText s t) : SameText t s := by
  rcases h with rfl | ⟨hs, ht, h⟩
  · exact .inl rfl
  · exact .inr ⟨ht, hs, h.symm⟩

/-- The fields that hold integers. -/
def integerFields : List String := ["index", "blob_size", "signature_count", "slot", "target_slot"]

/-- The members of an object are written out: integer fields hold integers, and beside an index
there are siblings. -/
structure WrittenOut (members : Members Json) : Prop where
  integers : ∀ member ∈ members, member.1 ∈ integerFields → ∃ n, member.2 = .int n
  siblings : "index" ∈ members.names → "siblings" ∈ members.names

/-- Members that are no fields of levels and hold no integers are written out. -/
theorem WrittenOut.of_names {members : Members Json} (names : List String)
    (hnames : members.names = names) (h : ∀ name ∈ names, name ∉ integerFields) :
    WrittenOut members := by
  subst hnames
  constructor
  · intro member hmember hinteger
    exact absurd hinteger (h _ (List.mem_map_of_mem hmember))
  · intro hindex
    exact absurd (by decide) (h _ hindex)

/-- All objects are written out. -/
abbrev Complete : Json → Prop := EveryObject WrittenOut

/-- An envelope in the documented form: it carries its version, and all objects are written out. -/
structure Documented (json : Json) : Prop where
  version : ∃ members : Members Json, json = .object members ∧ "format_version" ∈ members.names
  complete : Complete json

theorem Complete.items {items : List Json} (h : Complete (.array items)) :
    ∀ item ∈ items, Complete item := by
  cases h with
  | array h => exact h

theorem Complete.members {members : Members Json} (h : Complete (.object members)) :
    WrittenOut members ∧ ∀ member ∈ members, Complete member.2 := by
  cases h with
  | object hmembers h => exact ⟨hmembers, h⟩

/-- A member of one list has a partner in another list of the same names. -/
theorem exists_partner {xs ys : Members Json} (hdistinct : xs.names.Nodup)
    (hnames : ∀ name, name ∈ xs.names ↔ name ∈ ys.names) {member : String × Json}
    (hmember : member ∈ xs) :
    ∃ y, xs.get? member.1 = some member.2 ∧ ys.get? member.1 = some y := by
  have hget := (Members.get?_eq_some_iff hdistinct).2 hmember
  obtain ⟨y, hy⟩ := Members.exists_get?_of_mem_names
    ((hnames _).1 (Members.mem_names_of_get?_eq_some hget))
  exact ⟨y, hget, hy⟩

/-- Whether all members are written out is the same for objects that are alike. -/
theorem WrittenOut.of_alike {xs ys : Members Json} (hdistinct : xs.names.Nodup)
    (hnames : ∀ name, name ∈ xs.names ↔ name ∈ ys.names)
    (halike : ∀ {name x y}, xs.get? name = some x → ys.get? name = some y → Alike SameText x y)
    (h : WrittenOut ys) : WrittenOut xs where
  integers := by
    intro member hmember hinteger
    obtain ⟨y, hx, hy⟩ := exists_partner hdistinct hnames hmember
    obtain ⟨n, hn⟩ := h.integers _ (Members.mem_of_get?_eq_some hy) hinteger
    dsimp only at hn
    subst hn
    have hsame := halike hx hy
    generalize member.2 = x at hsame
    cases hsame
    exact ⟨n, rfl⟩
  siblings := by
    intro hindex
    exact (hnames _).2 (h.siblings ((hnames _).1 hindex))

/-- What is alike complete data is complete. -/
theorem complete_of_alike {a b : Json} (h : Alike SameText a b) (ha : a.DistinctNames)
    (hb : Complete b) : Complete a := by
  induction h with
  | null => exact .null
  | bool b => exact .bool b
  | int n => exact .int n
  | float x => exact .float x
  | text _ => exact .text _
  | @array xs ys hlength _ ih =>
      cases ha with
      | array ha =>
          have hitems : List.Forall₂ (fun x y => x.DistinctNames → Complete y → Complete x) xs ys :=
            List.forall₂_iff_zip.2 ⟨hlength, ih⟩
          refine .array fun x hx => ?_
          obtain ⟨y, hy, hxy⟩ := exists_of_mem_forall₂_left hitems hx
          exact hxy (ha x hx) (hb.items y hy)
  | @object xs ys hnames halike ih =>
      cases ha with
      | object hdistinct ha =>
          obtain ⟨hwritten, hb⟩ := Complete.members hb
          refine .object (.of_alike hdistinct hnames halike hwritten) fun member hmember => ?_
          obtain ⟨y, hx, hy⟩ := exists_partner hdistinct hnames hmember
          exact ih hx hy (ha _ hmember) (hb _ (Members.mem_of_get?_eq_some hy))

/-! ### Data as they are read

A value that a schema accepts as a text, a list or a mapping is one. -/

/-- What is read as a mapping was an object. -/
theorem exists_object_of_toValue {json : Json} {entries : List (Value × Value)}
    (h : json.toValue = .mapping entries) :
    ∃ members, json = .object members ∧ entries = memberValues members := by
  cases json with
  | object members =>
      cases h
      exact ⟨members, rfl, rfl⟩
  | null | bool | int | float | text | array => cases h

/-- What is read as a list was an array. -/
theorem exists_array_of_list {json : Json} {items : List Value}
    (h : list json.toValue = .ok items) :
    ∃ elements, json = .array elements ∧ items = elements.map toValue := by
  cases json with
  | array elements =>
      cases h
      exact ⟨elements, rfl, itemValues_eq_map elements⟩
  | null | bool | int | float | text | object => cases h

theorem eq_text_of_text {json : Json} {s : String} (h : Schema.text json.toValue = .ok s) :
    json = .text s := by
  cases json with
  | text t =>
      cases h
      rfl
  | null | bool | int | float | array | object => cases h

theorem member?_memberValues (members : Members Json) (name : String) :
    member? name (memberValues members) = (members.get? name).map toValue := by
  induction members with
  | nil => rfl
  | cons member rest ih =>
      obtain ⟨other, value⟩ := member
      rw [memberValues, member?, Members.get?_cons, ih]
      split <;> rfl

/-- A required member is read from the member of its name. -/
theorem required_memberValues {α : Type} {members : Members Json} {name : String}
    {read : Value → Checked α} {a : α} :
    required (memberValues members) name read = .ok a ↔
      ∃ value, members.get? name = some value ∧ read value.toValue = .ok a := by
  rw [required_eq_ok, member?_memberValues]
  constructor
  · rintro ⟨_, hmember, hread⟩
    obtain ⟨value, hvalue, rfl⟩ := Option.map_eq_some_iff.1 hmember
    exact ⟨value, hvalue, hread⟩
  · rintro ⟨value, hvalue, hread⟩
    exact ⟨_, by rw [hvalue]; rfl, hread⟩

/-- A record fits when its fields do and it has no names but the known ones. -/
theorem closed_memberValues {α : Type} {known : List String} {members : Members Json}
    {a : Checked α} {x : α} :
    closed known (memberValues members) a = .ok x ↔
      a = .ok x ∧ ∀ name ∈ members.names, name ∈ known := by
  have hkeys : (∀ e ∈ memberValues members, keyDefects known e.1 = []) ↔
      ∀ name ∈ members.names, name ∈ known := by
    rw [memberValues_eq_map, List.forall_mem_map, Members.names, List.forall_mem_map]
    refine forall₂_congr fun member _ => ?_
    simp [keyDefects]
  rw [closed_eq_ok, hkeys]

/-- What is read as a record is an object of known names. -/
theorem exists_members {α : Type} {name : String} {known : List String} {json : Json}
    {fields : List (Value × Value) → Checked α} {a : α}
    (h : (recordEntries name json.toValue >>= fun entries =>
      closed known entries (fields entries)) = .ok a) :
    ∃ members : Members Json, json = .object members ∧ (∀ name ∈ members.names, name ∈ known) ∧
      fields (memberValues members) = .ok a := by
  obtain ⟨entries, hentries, hclosed⟩ := bind_eq_ok.1 h
  obtain ⟨members, rfl, rfl⟩ := exists_object_of_toValue (recordEntries_eq_ok.1 hentries)
  obtain ⟨hfields, hknown⟩ := closed_memberValues.1 hclosed
  exact ⟨members, rfl, hknown, hfields⟩

/-- An object of known names is alike a written one when it has something alike in each field. -/
theorem alike_object {R : String → String → Prop} {members written : Members Json}
    (hknown : ∀ name ∈ members.names, name ∈ written.names)
    (h : ∀ field ∈ written, ∃ value, members.get? field.1 = some value ∧ Alike R value field.2) :
    Alike R (.object members) (.object written) := by
  refine .object (fun name => ⟨hknown name, fun hname => ?_⟩) ?_
  · obtain ⟨field, hfield, rfl⟩ := List.mem_map.1 hname
    obtain ⟨value, hvalue, -⟩ := h field hfield
    exact Members.mem_names_of_get?_eq_some hvalue
  · intro name x y hx hy
    obtain ⟨value, hvalue, hsame⟩ := h _ (Members.mem_of_get?_eq_some hy)
    rw [hx] at hvalue
    cases hvalue
    exact hsame

/-! ### Writers and readers

A pair of a writer and a reader is faithful if it reads complete data only as what is written as
like data. -/

/-- A writer and a reader are faithful to one another: what is written is complete, and complete
data are alike what is written of what they are read as. -/
structure Faithful {ε α : Type} (write : α → Except ε Json) (read : Value → Checked (Made α)) :
    Prop where
  complete : ∀ {a : α} {written : Json}, write a = .ok written → Complete written
  alike : ∀ {a : α} {written json : Json}, Complete json → read json.toValue = .ok (.ok a) →
    write a = .ok written → Alike SameText json written

namespace Faithful

variable {ε α : Type} {write : α → Except ε Json} {read : Value → Checked (Made α)}

/-- A field of a complete record is alike the written one. -/
theorem field (h : Faithful write read) {members : Members Json} {name : String} {a : α}
    {written : Json} (hcomplete : ∀ member ∈ members, Complete member.2)
    (hread : required (memberValues members) name read = .ok (.ok a))
    (hwrite : write a = .ok written) :
    ∃ value, members.get? name = some value ∧ Alike SameText value written := by
  obtain ⟨value, hvalue, hread⟩ := required_memberValues.1 hread
  exact ⟨value, hvalue,
    h.alike (hcomplete _ (Members.mem_of_get?_eq_some hvalue)) hread hwrite⟩

/-- Faithful writing of elements makes complete lists. -/
theorem completeList (h : Faithful write read) {xs : List α} {items : List Json}
    (hitems : List.Forall₂ (fun x item => write x = .ok item) xs items) :
    Complete (.array items) := by
  refine .array fun item hitem => ?_
  obtain ⟨x, -, hx⟩ := exists_of_mem_forall₂_right hitems hitem
  exact h.complete hx

/-- Faithful reading of elements makes lists that are alike, element by element. -/
theorem alikeList (h : Faithful write read) {json : Json} {made : List (Made α)} {xs : List α}
    {items : List Json} (hcomplete : Complete json)
    (hread : listOf read json.toValue = .ok made) (hmade : Made.all made = .ok xs)
    (hitems : List.Forall₂ (fun x item => write x = .ok item) xs items) :
    Alike SameText json (.array items) := by
  obtain ⟨values, hvalues, hall⟩ := listOf_eq_ok.1 hread
  obtain ⟨elements, rfl, rfl⟩ := exists_array_of_list hvalues
  obtain rfl := made_all_eq_ok.1 hmade
  rw [List.map_map, List.map_map] at hall
  refine alike_array_iff.2 ?_
  have helements := hcomplete.items
  clear hread hmade hvalues hcomplete
  induction hitems generalizing elements with
  | nil =>
      rw [List.map_nil, List.map_eq_nil_iff] at hall
      rw [hall]
      exact .nil
  | cons hx _ ih =>
      obtain ⟨element, rest, rfl, helement, hrest⟩ := List.map_eq_cons_iff.1 hall
      obtain ⟨hfirst, hlater⟩ := List.forall_mem_cons.1 helements
      exact .cons (h.alike hfirst helement hx) (ih rest hrest hlater)

/-- A list in a field of a complete record is alike the written one. -/
theorem listField (h : Faithful write read) {members : Members Json} {name : String}
    {made : List (Made α)} {xs : List α} {items : List Json}
    (hcomplete : ∀ member ∈ members, Complete member.2)
    (hread : required (memberValues members) name (listOf read) = .ok made)
    (hmade : Made.all made = .ok xs)
    (hitems : List.Forall₂ (fun x item => write x = .ok item) xs items) :
    ∃ value, members.get? name = some value ∧ Alike SameText value (.array items) := by
  obtain ⟨value, hvalue, hread⟩ := required_memberValues.1 hread
  exact ⟨value, hvalue,
    h.alikeList (hcomplete _ (Members.mem_of_get?_eq_some hvalue)) hread hmade hitems⟩

end Faithful

/-- An integer field of a record that is written out holds the number that it is read as. -/
theorem integerField {members : Members Json} {name : String} {maximum? : Option Nat} {n : Nat}
    (hwritten : WrittenOut members) (hname : name ∈ integerFields)
    (hread : required (memberValues members) name (natural maximum?) = .ok n) :
    ∃ value, members.get? name = some value ∧ Alike SameText value (.int n) := by
  obtain ⟨value, hvalue, hread⟩ := required_memberValues.1 hread
  obtain ⟨m, hm⟩ := hwritten.integers _ (Members.mem_of_get?_eq_some hvalue) hname
  dsimp only at hm
  subst hm
  rw [← eq_of_natural_int hread]
  exact ⟨_, hvalue, .int m⟩

end Wire

end SlotEvidence
