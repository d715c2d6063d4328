/-
Module: SlotEvidence.Proofs.Wire.Record
Purpose: Written records are read back: what is read of a written value is its canonical order as a
  dynamic value, in which every field is found under its name.  A writer and a reader that belong
  together are lifted from the parts of a record to the record, and from items to lists.
Trusted boundary: none
Main exports: Json.asRead, Wire.member?_entries, Wire.read_record, Wire.RoundTrip,
  Wire.RoundTrip.read_list, Wire.RoundTrip.fits_of_read_list
-/
import SlotEvidence.Proofs.Forall2
import SlotEvidence.Proofs.Json.RoundTrip
import SlotEvidence.Proofs.Schema.Integers
import SlotEvidence.Wire.Writing

namespace SlotEvidence

/-- What is read of a written value. -/
def Json.asRead (value : Json) : Value := value.sorted.toValue

namespace Wire

open Schema

/-! ### Records

What is known of a record whose names are distinct: each member is found under its name. -/

/-- The entries that are read of the members of a written record. -/
def entries (members : Members Json) : List (Value × Value) :=
  (Json.sortMembers members).map fun member => (.text member.1, member.2.asRead)

theorem itemValues_eq_map (items : List Json) : Json.itemValues items = items.map Json.toValue := by
  induction items with
  | nil => rfl
  | cons item rest ih => rw [Json.itemValues, ih, List.map_cons]

theorem memberValues_eq_map (members : List (String × Json)) :
    Json.memberValues members =
      members.map fun member => (.text member.1, member.2.toValue) := by
  induction members with
  | nil => rfl
  | cons member rest ih => rw [Json.memberValues, ih, List.map_cons]

theorem asRead_array (items : List Json) :
    (Json.array items).asRead = .list (items.map Json.asRead) := by
  rw [Json.asRead, Json.sorted, Json.sortedItems_eq_map, Json.toValue, itemValues_eq_map,
    List.map_map]
  rfl

theorem asRead_object (members : Members Json) :
    (Json.object members).asRead = .mapping (entries members) := by
  rw [Json.asRead, Json.sorted, Json.sortedMembers_eq_map, Json.sortMembers_map, Json.toValue,
    memberValues_eq_map, List.map_map]
  rfl

/-- In an object whose names are distinct, a member is found under its name. -/
theorem member?_map_of_mem {members : Members Json} (hdistinct : members.names.Nodup)
    {name : String} {value : Json} (h : (name, value) ∈ members) :
    member? name (members.map fun member => (.text member.1, member.2.asRead)) =
      some value.asRead := by
  induction members with
  | nil => cases h
  | cons member rest ih =>
      obtain ⟨hnew, hrest⟩ := List.nodup_cons.1 hdistinct
      rw [List.map_cons, member?]
      rcases List.mem_cons.1 h with rfl | hmem
      · exact if_pos rfl
      · have hlater : name ∈ rest.map (·.1) := List.mem_map_of_mem hmem
        have hne : member.1 ≠ name := by
          rintro rfl
          exact hnew hlater
        rw [if_neg hne, ih hrest hmem]

/-- Each member of a written record is found under its name. -/
theorem member?_entries {members : Members Json} (hdistinct : members.names.Nodup)
    {name : String} {value : Json} (h : (name, value) ∈ members) :
    member? name (entries members) = some value.asRead := by
  have hperm := Json.sortMembers_perm members
  exact member?_map_of_mem ((hperm.map _).nodup_iff.2 hdistinct) (hperm.mem_iff.2 h)

/-- A required member of such an object is read if it fits. -/
theorem required_entries {α : Type} {members : Members Json} (hdistinct : members.names.Nodup)
    {name : String} {value : Json} (h : (name, value) ∈ members) {read : Value → Checked α} {a : α}
    (hread : read value.asRead = .ok a) : required (entries members) name read = .ok a :=
  required_eq_ok.2 ⟨_, member?_entries hdistinct h, hread⟩

/-- A written record has no strange keys where just its own names are known. -/
theorem closed_entries {α : Type} (members : Members Json) {a : Checked α} {x : α}
    (h : a = .ok x) : closed members.names (entries members) a = .ok x := by
  refine closed_eq_ok.2 ⟨h, ?_⟩
  intro e he
  obtain ⟨member, hmember, rfl⟩ := List.mem_map.1 he
  have hmem : member ∈ members := (Json.sortMembers_perm members).mem_iff.1 hmember
  exact if_pos (List.mem_map_of_mem hmem)

/-- A record is read back from its members when its fields are. -/
theorem read_record {α : Type} {members : Members Json} (name : String)
    {fields : List (Value × Value) → Checked α} {a : α} (h : fields (entries members) = .ok a) :
    (recordEntries name (Json.object members).asRead >>= fun entries =>
      closed members.names entries (fields entries)) = .ok a := by
  rw [asRead_object]
  exact closed_entries members h

theorem recordEntries_eq_ok {name : String} {value : Value} {es : List (Value × Value)} :
    recordEntries name value = .ok es ↔ value = .mapping es := by
  cases value <;> simp [recordEntries, refuse]

/-- What is read as a record comes from fields of a mapping. -/
theorem exists_fields {α : Type} {name : String} {known : List String} {value : Value}
    {fields : List (Value × Value) → Checked α} {a : α}
    (h : (recordEntries name value >>= fun entries =>
      closed known entries (fields entries)) = .ok a) :
    ∃ entries, value = .mapping entries ∧ fields entries = .ok a := by
  obtain ⟨entries, hentries, hclosed⟩ := bind_eq_ok.1 h
  exact ⟨entries, recordEntries_eq_ok.1 hentries, (closed_eq_ok.1 hclosed).1⟩

/-! ### Writers and readers

A writer and a reader that undo each other on what fits, which can be put together to those of lists
and records. -/

/-- A writer and a reader of one kind of data belong together: what is written is legible and is
read back, and just what fits can be written as a text and read from one.  Numbers in a text are
never too long, so this much is known of the value that is read. -/
structure RoundTrip {ε α : Type} (write : α → Except ε Json) (read : Value → Checked (Made α))
    (Fits : α → Prop) : Prop where
  legible : ∀ {a : α} {json : Json}, write a = .ok json → json.Legible
  read_written : ∀ {a : α} {json : Json}, write a = .ok json → read json.asRead = .ok (.ok a)
  exists_written : ∀ {a : α}, Fits a → ∃ json, write a = .ok json ∧ json.Writable
  fits_of_read : ∀ {a : α} {value : Value}, value.Writable → read value = .ok (.ok a) → Fits a

/-- A list is made just when each of its elements is. -/
theorem made_all_eq_ok {α : Type} {items : List (Made α)} {xs : List α} :
    Made.all items = .ok xs ↔ items = xs.map .ok := by
  induction items generalizing xs with
  | nil =>
      cases xs with
      | nil => exact ⟨fun _ => rfl, fun _ => rfl⟩
      | cons x xs => exact ⟨nofun, nofun⟩
  | cons item items ih =>
      rw [Made.all, bind_eq_ok]
      simp only [bind_eq_ok, ih]
      constructor
      · rintro ⟨x, rfl, rest, rfl, h⟩
        cases h
        rfl
      · intro h
        cases xs with
        | nil => cases h
        | cons x xs =>
            obtain ⟨rfl, rfl⟩ := List.cons.inj h
            exact ⟨x, rfl, xs, rfl, rfl⟩

namespace RoundTrip

variable {ε α : Type} {write : α → Except ε Json} {read : Value → Checked (Made α)}
  {Fits : α → Prop}

/-- Written items are read back as a list. -/
theorem read_list (h : RoundTrip write read Fits) {xs : List α} {items : List Json}
    (hitems : List.Forall₂ (fun x item => write x = .ok item) xs items) :
    listOf read (Json.array items).asRead = .ok (xs.map .ok) := by
  refine listOf_eq_ok.2 ⟨_, by rw [asRead_array]; rfl, ?_⟩
  induction hitems with
  | nil => rfl
  | cons hx _ ih => rw [List.map_cons, List.map_cons, ih, h.read_written hx]; rfl

/-- Elements that can be read back make a list that can. -/
theorem legible_list (h : RoundTrip write read Fits) {xs : List α} {items : List Json}
    (hitems : List.Forall₂ (fun x item => write x = .ok item) xs items) :
    (Json.array items).Legible := by
  apply Json.Legible.array
  intro item hitem
  obtain ⟨x, -, hx⟩ := exists_of_mem_forall₂_right hitems hitem
  exact h.legible hx

/-- Elements that fit are written, and so is the list of them. -/
theorem exists_written_list (h : RoundTrip write read Fits) {xs : List α}
    (hxs : ∀ x ∈ xs, Fits x) :
    ∃ items, List.Forall₂ (fun x item => write x = .ok item) xs items ∧
      (Json.array items).Writable := by
  induction xs with
  | nil => exact ⟨[], .nil, nofun⟩
  | cons x xs ih =>
      obtain ⟨item, hitem, hwritable⟩ := h.exists_written (hxs x List.mem_cons_self)
      obtain ⟨items, hitems, hrest⟩ :=
        ih fun other hother => hxs other (List.mem_cons_of_mem _ hother)
      refine ⟨item :: items, .cons hitem hitems, Json.writable_array_iff.2 ?_⟩
      exact List.forall_mem_cons.2 ⟨hwritable, Json.writable_array_iff.1 hrest⟩

/-- The things that were read as a list of items fit. -/
theorem fits_of_read_list (h : RoundTrip write read Fits) {value : Value} {made : List (Made α)}
    {xs : List α} (hvalue : value.Writable) (hread : listOf read value = .ok made)
    (hmade : Made.all made = .ok xs) : ∀ x ∈ xs, Fits x := by
  intro x hx
  have hmem : Except.ok x ∈ made := made_all_eq_ok.1 hmade ▸ List.mem_map_of_mem hx
  obtain ⟨items, item, hlist, hitem, hread⟩ := exists_read_of_listOf hread hmem
  exact h.fits_of_read (writable_of_mem_list hvalue hlist item hitem) hread

/-- What is read from a field of a record fits. -/
theorem fits_of_read_field (h : RoundTrip write read Fits) {entries : List (Value × Value)}
    {name : String} {a : α} (hentries : (Value.mapping entries).Writable)
    (hread : required entries name read = .ok (.ok a)) : Fits a := by
  obtain ⟨value, hvalue, hread⟩ := required_eq_ok.1 hread
  exact h.fits_of_read (writable_of_member? hentries hvalue) hread

/-- The things that were read as a list in a field of a record fit. -/
theorem fits_of_read_list_field (h : RoundTrip write read Fits) {entries : List (Value × Value)}
    {name : String} {made : List (Made α)} {xs : List α}
    (hentries : (Value.mapping entries).Writable)
    (hread : required entries name (listOf read) = .ok made) (hmade : Made.all made = .ok xs) :
    ∀ x ∈ xs, Fits x := by
  obtain ⟨value, hvalue, hread⟩ := required_eq_ok.1 hread
  exact h.fits_of_read_list (writable_of_member? hentries hvalue) hread hmade

end RoundTrip

end Wire

end SlotEvidence
