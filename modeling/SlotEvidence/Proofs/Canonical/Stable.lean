/-
Module: SlotEvidence.Proofs.Canonical.Stable
Purpose: What becomes of a canonical form that is made canonical once more.  The members that are
  null go and everything else stays, so that a form is its own canonical form, and its text the
  canonical text of what is read from it, just when no member of it is null.  A form has such
  members only where an enumeration member stands for null in the value: what is null itself is left
  out, and what is unwrapped to null is not.
Trusted boundary: none
Main exports: Json.NullFree, Json.withoutNulls, Json.withoutNulls_eq_self_iff,
  Json.Exact.canonical_toValue, Value.SomeMapping, Value.HidesNull,
  Value.nullFree_of_not_hidesNull, Value.canonical_stable_unless_null_hidden
-/
import SlotEvidence.Proofs.Canonical.Faithful

namespace SlotEvidence

namespace Json

/-! ### Null members

Members that are null are left out of objects.  Items that are null stay in arrays, since leaving
them out would move the others. -/

/-- No object, at whatever depth, has a member that is null. -/
abbrev NullFree : Json → Prop := EveryObject fun members => ∀ member ∈ members, member.2 ≠ .null

mutual

/-- The value without those members of its objects that are null.  Null items of arrays stay. -/
def withoutNulls : Json → Json
  | .array items => .array (itemsWithoutNulls items)
  | .object members => .object (membersWithoutNulls members)
  | value => value

def itemsWithoutNulls : List Json → List Json
  | [] => []
  | item :: rest => item.withoutNulls :: itemsWithoutNulls rest

def membersWithoutNulls : List (String × Json) → List (String × Json)
  | [] => []
  | (_, .null) :: rest => membersWithoutNulls rest
  | (name, value) :: rest => (name, value.withoutNulls) :: membersWithoutNulls rest

end

theorem itemsWithoutNulls_eq_map (items : List Json) :
    itemsWithoutNulls items = items.map withoutNulls := by
  induction items with
  | nil => rfl
  | cons item rest ih => rw [itemsWithoutNulls, ih, List.map_cons]

theorem membersWithoutNulls_cons {value : Json} (h : value ≠ .null) (name : String)
    (rest : List (String × Json)) :
    membersWithoutNulls ((name, value) :: rest) =
      (name, value.withoutNulls) :: membersWithoutNulls rest :=
  membersWithoutNulls.eq_3 _ _ _ h

/-- The members that stay are those that are not null. -/
theorem mem_membersWithoutNulls {members : List (String × Json)} {member : String × Json} :
    member ∈ membersWithoutNulls members ↔
      ∃ value, (member.1, value) ∈ members ∧ value ≠ .null ∧ member.2 = value.withoutNulls := by
  induction members with
  | nil => simp [membersWithoutNulls]
  | cons first rest ih =>
      obtain ⟨name, value⟩ := first
      by_cases hnull : value = .null
      · subst hnull
        rw [membersWithoutNulls, ih]
        constructor
        · rintro ⟨kept, hmem, hkept⟩
          exact ⟨kept, List.mem_cons_of_mem _ hmem, hkept⟩
        · rintro ⟨kept, hmem, hne, hkept⟩
          rcases List.mem_cons.1 hmem with heq | hmem
          · cases heq
            exact absurd rfl hne
          · exact ⟨kept, hmem, hne, hkept⟩
      · rw [membersWithoutNulls_cons hnull, List.mem_cons, ih]
        constructor
        · rintro (rfl | ⟨kept, hmem, hkept⟩)
          · exact ⟨value, List.mem_cons_self, hnull, rfl⟩
          · exact ⟨kept, List.mem_cons_of_mem _ hmem, hkept⟩
        · rintro ⟨kept, hmem, hne, hkept⟩
          rcases List.mem_cons.1 hmem with heq | hmem
          · cases heq
            exact .inl (Prod.ext rfl hkept)
          · exact .inr ⟨kept, hmem, hne, hkept⟩

theorem withoutNulls_ne_null {value : Json} (h : value ≠ .null) : value.withoutNulls ≠ .null := by
  cases value with
  | null => exact absurd rfl h
  | _ => simp [withoutNulls]

mutual

/-- No member is null once the null members are left out, at any depth. -/
theorem nullFree_withoutNulls : ∀ value : Json, value.withoutNulls.NullFree
  | .null => .null
  | .bool b => .bool b
  | .int n => .int n
  | .float x => .float x
  | .text s => .text s
  | .array items => .array (nullFree_itemsWithoutNulls items)
  | .object members => by
      refine .object ?_ (nullFree_membersWithoutNulls members)
      intro member hmember
      obtain ⟨value, -, hne, heq⟩ := mem_membersWithoutNulls.1 hmember
      rw [heq]
      exact withoutNulls_ne_null hne

theorem nullFree_itemsWithoutNulls :
    ∀ items : List Json, ∀ item ∈ itemsWithoutNulls items, item.NullFree
  | [] => nofun
  | item :: rest =>
      List.forall_mem_cons.2 ⟨nullFree_withoutNulls item, nullFree_itemsWithoutNulls rest⟩

theorem nullFree_membersWithoutNulls :
    ∀ members : List (String × Json), ∀ member ∈ membersWithoutNulls members, member.2.NullFree
  | [] => nofun
  | (name, value) :: rest => by
      by_cases hnull : value = .null
      · subst hnull
        exact nullFree_membersWithoutNulls rest
      · rw [membersWithoutNulls_cons hnull]
        exact List.forall_mem_cons.2
          ⟨nullFree_withoutNulls value, nullFree_membersWithoutNulls rest⟩

end

/-- If no member is null and none changes, leaving out null members changes nothing. -/
theorem membersWithoutNulls_eq_self {members : List (String × Json)}
    (hne : ∀ member ∈ members, member.2 ≠ .null)
    (h : ∀ member ∈ members, member.2.withoutNulls = member.2) :
    membersWithoutNulls members = members := by
  induction members with
  | nil => rfl
  | cons member rest ih =>
      obtain ⟨name, value⟩ := member
      obtain ⟨hvalue, hrest⟩ := List.forall_mem_cons.1 h
      obtain ⟨hnull, hrestNull⟩ := List.forall_mem_cons.1 hne
      dsimp only at hvalue hnull
      rw [membersWithoutNulls_cons hnull, hvalue, ih hrestNull hrest]

/-- Just the values without null members stay as they are. -/
theorem withoutNulls_eq_self_iff {value : Json} : value.withoutNulls = value ↔ value.NullFree := by
  constructor
  · intro h
    rw [← h]
    exact nullFree_withoutNulls value
  · intro h
    induction h with
    | null => rfl
    | bool _ => rfl
    | int _ => rfl
    | float _ => rfl
    | text _ => rfl
    | array _ ih =>
        rw [withoutNulls, itemsWithoutNulls_eq_map, List.map_congr_left ih, List.map_id']
    | object hmembers _ ih => rw [withoutNulls, membersWithoutNulls_eq_self hmembers ih]

/-- Null members do not depend on the order of members. -/
theorem Alike.nullFree {R : String → String → Prop} {a b : Json} (h : Alike R a b)
    (ha : a.NullFree) (hb : b.DistinctNames) : b.NullFree := by
  induction h with
  | null => exact .null
  | bool b => exact .bool b
  | int n => exact .int n
  | float x => exact .float x
  | text _ => exact .text _
  | @array xs ys hlength _ ih =>
      cases ha with
      | array ha =>
      cases hb with
      | array hb =>
          have hitems : List.Forall₂ (fun x y => x.NullFree → y.DistinctNames → y.NullFree) xs ys :=
            List.forall₂_iff_zip.2 ⟨hlength, ih⟩
          refine .array fun y hy => ?_
          obtain ⟨x, hx, hxy⟩ := exists_of_mem_forall₂_right hitems hy
          exact hxy (ha x hx) (hb y hy)
  | @object xs ys hnames h ih =>
      cases ha with
      | object hnull ha =>
      cases hb with
      | object hdistinct hb =>
          -- Each member of the right object has a partner of its name, to which the induction
          -- applies.
          have hpartner : ∀ member ∈ ys, ∃ x, xs.get? member.1 = some x ∧
              ys.get? member.1 = some member.2 := by
            intro member hmember
            have hget := (Members.get?_eq_some_iff hdistinct).2 hmember
            have hname := (hnames member.1).2 (Members.mem_names_of_get?_eq_some hget)
            obtain ⟨x, hx⟩ := Members.exists_get?_of_mem_names hname
            exact ⟨x, hx, hget⟩
          refine .object ?_ ?_
          · intro member hmember heq
            obtain ⟨x, hx, hy⟩ := hpartner member hmember
            have halike := h hx hy
            rw [heq] at halike
            cases halike
            exact hnull _ (Members.mem_of_get?_eq_some hx) rfl
          · intro member hmember
            obtain ⟨x, hx, hy⟩ := hpartner member hmember
            exact ih hx hy (ha _ (Members.mem_of_get?_eq_some hx)) (hb member hmember)

/-! ### Forms made canonical once more

A form read as a value is canonical but for its null members: its names are texts, and its integers
and texts are their own forms. -/

/-- The names that are left stand in the order in which they stood. -/
theorem names_membersWithoutNulls (members : Members Json) :
    (Members.names (membersWithoutNulls members)).Sublist members.names := by
  induction members with
  | nil => exact .slnil
  | cons member rest ih =>
      obtain ⟨name, value⟩ := member
      by_cases hnull : value = .null
      · subst hnull
        exact ih.cons name
      · rw [membersWithoutNulls_cons hnull]
        exact ih.cons_cons name

/-- Sorting keeps a form exact. -/
theorem Exact.sorted {value : Json} (h : value.Exact) : value.sorted.Exact := by
  induction h with
  | null => exact .null
  | bool b => exact .bool b
  | int n => exact .int n
  | text s => exact .text s
  | array _ ih =>
      rw [Json.sorted, sortedItems_eq_map]
      exact .array (List.forall_mem_map.2 ih)
  | @object members hdistinct _ ih =>
      have hperm := sortMembers_perm members
      rw [sorted_object]
      refine .object ?_ (List.forall_mem_map.2 ?_)
      · rw [Members.names_map]
        exact Members.nodup_names_of_perm hperm.symm hdistinct
      · intro member hmember
        exact ih member (hperm.mem_iff.1 hmember)

theorem toValue_ne_null {value : Json} (h : value ≠ .null) : value.toValue ≠ .null := by
  cases value with
  | null => exact absurd rfl h
  | _ => simp [toValue]

/-- The items of a JSON value, read as values, have as forms what is left of them without null
members. -/
theorem canonicalItems_itemValues {items : List Json}
    (h : ∀ item ∈ items, ∀ path, item.toValue.canonical path = .ok item.withoutNulls)
    (path : String) (index : Nat) :
    Value.canonicalItems path index (itemValues items) = .ok (itemsWithoutNulls items) := by
  induction items generalizing index with
  | nil => rfl
  | cons item rest ih =>
      obtain ⟨hitem, hrest⟩ := List.forall_mem_cons.1 h
      exact Value.canonicalItems_cons_eq_ok.2 ⟨_, _, hitem _, ih hrest (index + 1), rfl⟩

/-- The members of a JSON value, read as values, have as forms what is left of them without null
members. -/
theorem canonicalEntries_memberValues {members : Members Json}
    (h : ∀ member ∈ members, ∀ path, member.2.toValue.canonical path = .ok member.2.withoutNulls)
    (path : String) :
    Value.canonicalEntries path (memberValues members) = .ok (membersWithoutNulls members) := by
  induction members with
  | nil => rfl
  | cons member rest ih =>
      obtain ⟨name, value⟩ := member
      obtain ⟨hvalue, hrest⟩ := List.forall_mem_cons.1 h
      refine Value.canonicalEntries_cons_eq_ok.2 ⟨name, rfl, ?_⟩
      by_cases hnull : value = .null
      · subst hnull
        exact .inl ⟨rfl, ih hrest⟩
      · refine .inr ⟨toValue_ne_null hnull, _, _, hvalue _, ih hrest, ?_⟩
        exact membersWithoutNulls_cons hnull name rest

/-- Made canonical once more, a form loses its null members and nothing else. -/
theorem Exact.canonical_toValue {form : Json} (h : form.Exact) (path : String) :
    form.toValue.canonical path = .ok form.withoutNulls := by
  induction h generalizing path with
  | null => rfl
  | bool _ => rfl
  | int _ => rfl
  | text _ => rfl
  | array _ ih =>
      rw [toValue, Value.canonical, canonicalItems_itemValues ih]
      rfl
  | @object members hdistinct _ ih =>
      have hnames : (Members.names (membersWithoutNulls members)).Nodup :=
        (names_membersWithoutNulls members).nodup hdistinct
      rw [toValue, Value.canonical, canonicalEntries_memberValues ih]
      exact congrArg (Except.ok ∘ Json.object) (Members.ofList_of_nodup hnames)

end Json

namespace Value

open Canonical Json

/-- The text of a form without null members, and of no other, is the canonical text of what is read
from it. -/
theorem canonicalText_of_parse_iff {form : Json} (h : form.Exact) {text : String}
    (htext : form.dump = .ok text) :
    form.sorted.toValue.canonicalText = .ok text ↔ form.NullFree := by
  have hform := h.legible.distinctNames
  have hsorted : SameUpToOrder form form.sorted := hform.alike_sorted fun _ => rfl
  have hagain := h.sorted.canonical_toValue ""
  have hexact := exact_of_canonical hagain
  have hwritten : form.sorted.toValue.canonicalText = .ok text ↔
      SameUpToOrder form form.sorted.withoutNulls := by
    rw [canonicalText_eq_ok, ← dump_eq_iff h hexact htext]
    constructor
    · rintro ⟨other, hother, hdump⟩
      obtain rfl := Except.ok.inj (hagain.symm.trans hother)
      exact hdump
    · intro hdump
      exact ⟨_, hagain, hdump⟩
  rw [hwritten]
  constructor
  · intro hsame
    exact (hsame.symm Eq.symm).nullFree (nullFree_withoutNulls _) hform
  · intro hfree
    have hfreeSorted := hsorted.nullFree hfree h.sorted.legible.distinctNames
    rwa [withoutNulls_eq_self_iff.2 hfreeSorted]

/-! ### Values that hide null

An enumeration member whose value is null is not null itself.  Under a key it escapes the test that
leaves null out, and comes out as a null member all the same.  Where keys come twice the later of
two such members may take the place of another, so that nothing follows from the hiding alone. -/

/-- An enumeration member that stands for null, by way of other ones or at once. -/
inductive StandsForNull : Value → Prop where
  | direct : StandsForNull (.member .null)
  | nested {value : Value} (h : StandsForNull value) : StandsForNull (.member value)

/-- An enumeration member that stands for null has null for its form. -/
theorem StandsForNull.canonical_eq {value : Value} (h : value.StandsForNull) (path : String) :
    value.canonical path = .ok .null := by
  induction h with
  | direct => rfl
  | nested _ ih => exact ih

/-- Just null and what stands for it have the form null. -/
theorem null_or_standsForNull {value : Value} {path : String}
    (h : value.canonical path = .ok .null) : value = .null ∨ value.StandsForNull := by
  induction encodable_of_canonical value h generalizing path with
  | null => exact .inl rfl
  | @member value _ ih =>
      rcases ih h with rfl | hvalue
      · exact .inr .direct
      · exact .inr (.nested hvalue)
  | bool _ => cases h
  | int _ => cases h
  | text _ => cases h
  | bytes _ => cases h
  | buffer _ => cases h
  | list _ | tuple _ | mapping _ _ | record _ | report _ _ =>
      obtain ⟨_, -, heq⟩ := map_eq_ok.1 h
      cases heq

/-- The entries of some mapping in a value, at whatever depth, have a property.  Records and reports
count as the mappings of their fields. -/
inductive SomeMapping (P : List (Value × Value) → Prop) : Value → Prop where
  | here {entries : List (Value × Value)} (h : P entries) : SomeMapping P (.mapping entries)
  | entry {entries : List (Value × Value)} {entry : Value × Value} (hentry : entry ∈ entries)
      (h : SomeMapping P entry.2) : SomeMapping P (.mapping entries)
  | member {value : Value} (h : SomeMapping P value) : SomeMapping P (.member value)
  | list {items : List Value} {item : Value} (hitem : item ∈ items) (h : SomeMapping P item) :
      SomeMapping P (.list items)
  | tuple {items : List Value} {item : Value} (hitem : item ∈ items) (h : SomeMapping P item) :
      SomeMapping P (.tuple items)
  | record {fields : List (String × Value)} (h : SomeMapping P (ofMembers fields)) :
      SomeMapping P (.record fields)
  | report {kind : ReportKind} {fields : List (String × Value)}
      (h : SomeMapping P (ofMembers fields)) : SomeMapping P (.report kind fields)

/-- A mapping has some property somewhere if it has it itself or one of its values has it somewhere.
-/
theorem someMapping_mapping_iff {P : List (Value × Value) → Prop}
    {entries : List (Value × Value)} :
    SomeMapping P (.mapping entries) ↔ P entries ∨ ∃ entry ∈ entries, SomeMapping P entry.2 := by
  constructor
  · intro h
    cases h with
    | here h => exact .inl h
    | entry hentry h => exact .inr ⟨_, hentry, h⟩
  · rintro (h | ⟨entry, hentry, h⟩)
    · exact .here h
    · exact .entry hentry h

/-- A member of some mapping stands for null without being null. -/
abbrev HidesNull : Value → Prop :=
  SomeMapping fun entries => ∃ entry ∈ entries, entry.2.StandsForNull

/-- A key comes twice in some mapping. -/
abbrev RepeatsKey : Value → Prop := SomeMapping fun entries => ¬ (entries.map (·.1)).Nodup

/-- The members of a mapping that hides no null have forms that are not null. -/
theorem nullFree_of_canonicalMapping {path : String} {entries : List (Value × Value)} {form : Json}
    (h : (Value.mapping entries).canonical path = .ok form)
    (hhides : ¬ (Value.mapping entries).HidesNull)
    (hentries : ∀ entry ∈ entries, ∀ {place form}, entry.2.canonical place = .ok form →
      ¬ entry.2.HidesNull → form.NullFree) : form.NullFree := by
  obtain ⟨members, hmembers, rfl⟩ := map_eq_ok.1 h
  have hmember : ∀ member ∈ Members.ofList members, ∃ value, (.text member.1, value) ∈ entries ∧
      value ≠ .null ∧ value.canonical (memberPath path member.1) = .ok member.2 :=
    fun _ hmem => (mem_canonicalEntries hmembers).1 (Members.mem_of_mem_ofList hmem)
  refine .object ?_ ?_
  · intro member hmem heq
    obtain ⟨value, hvalue, hne, hform⟩ := hmember member hmem
    rw [heq] at hform
    have hstands := (null_or_standsForNull hform).resolve_left hne
    exact hhides (.here ⟨_, hvalue, hstands⟩)
  · intro member hmem
    obtain ⟨value, hvalue, -, hform⟩ := hmember member hmem
    exact hentries _ hvalue hform fun hbelow => hhides (.entry hvalue hbelow)

/-- The form of a value that hides no null has no null members. -/
theorem nullFree_of_not_hidesNull {value : Value} {path : String} {form : Json}
    (h : value.canonical path = .ok form) (hhides : ¬ value.HidesNull) : form.NullFree := by
  -- Values with a form are encodable, which leaves only these cases.
  induction encodable_of_canonical value h generalizing path form with
  | null => cases h; exact .null
  | bool b => cases h; exact .bool b
  | int n => cases h; exact .int n
  | text s => cases h; exact .text s
  | bytes b => cases h; exact .text _
  | buffer b => cases h; exact .text _
  | member _ ih => exact ih h fun hbelow => hhides (.member hbelow)
  | list _ ih =>
      refine holds_of_canonicalItems .array h fun item hitem _ _ hform => ?_
      exact ih item hitem hform fun hbelow => hhides (.list hitem hbelow)
  | tuple _ ih =>
      refine holds_of_canonicalItems .array h fun item hitem _ _ hform => ?_
      exact ih item hitem hform fun hbelow => hhides (.tuple hitem hbelow)
  | mapping _ _ ih =>
      exact nullFree_of_canonicalMapping h hhides fun entry hentry => ih entry hentry
  | record _ ih =>
      rw [canonical_record] at h
      exact nullFree_of_canonicalMapping h (fun hbelow => hhides (.record hbelow))
        (List.forall_mem_map.2 fun field hfield => ih field hfield)
  | report kind _ ih =>
      rw [canonical_report] at h
      exact nullFree_of_canonicalMapping h (fun hbelow => hhides (.report hbelow))
        (List.forall_mem_map.2 fun field hfield => ih field hfield)

/-- The form of every item is among the forms of the items. -/
theorem exists_form_of_mem {path : String} {index : Nat} {items : List Value} {forms : List Json}
    (h : canonicalItems path index items = .ok forms) {item : Value} (hitem : item ∈ items) :
    ∃ form ∈ forms, ∃ place, item.canonical place = .ok form := by
  induction items generalizing index forms with
  | nil => cases hitem
  | cons first rest ih =>
      obtain ⟨form, later, hfirst, hlater, rfl⟩ := canonicalItems_cons_eq_ok.1 h
      rcases List.mem_cons.1 hitem with rfl | hitem
      · exact ⟨form, List.mem_cons_self, _, hfirst⟩
      · obtain ⟨other, hother, hplace⟩ := ih hlater hitem
        exact ⟨other, List.mem_cons_of_mem _ hother, hplace⟩

/-- Where no key comes twice, every entry of a mapping that is not null itself has a form among the
members. -/
theorem exists_member_of_mem {path : String} {entries : List (Value × Value)} {form : Json}
    (h : (Value.mapping entries).canonical path = .ok form)
    (hkeys : ¬ (Value.mapping entries).RepeatsKey) (hfree : form.NullFree)
    {entry : Value × Value} (hentry : entry ∈ entries) (hne : entry.2 ≠ .null) :
    ∃ place member, entry.2.canonical place = .ok member ∧ member ≠ .null ∧ member.NullFree := by
  obtain ⟨members, hmembers, rfl⟩ := map_eq_ok.1 h
  have hdistinct : (entries.map (·.1)).Nodup := Classical.not_not.1 fun hrepeats =>
    hkeys (.here hrepeats)
  rw [Members.ofList_of_nodup (nodup_names_canonicalEntries hmembers hdistinct)] at hfree
  obtain ⟨name, member, hname, hmember⟩ := exists_canonicalEntries_iff.1 ⟨_, hmembers⟩ _ hentry
  have hnamed : (.text name, entry.2) ∈ entries := hname ▸ hentry
  have hmem := (mem_canonicalEntries hmembers).2 ⟨_, hnamed, hne, hmember⟩
  cases hfree with
  | object hnull hbelow => exact ⟨_, member, hmember, hnull _ hmem, hbelow _ hmem⟩

/-- A sequence has a null member in its form if one of its items has. -/
theorem not_nullFree_of_items {path : String} {items : List Value} {form : Json}
    (h : (canonicalItems path 0 items).map .array = .ok form) {item : Value}
    (hitem : item ∈ items)
    (hbelow : ∀ {place form}, item.canonical place = .ok form → ¬ form.NullFree) :
    ¬ form.NullFree := by
  obtain ⟨forms, hforms, rfl⟩ := map_eq_ok.1 h
  obtain ⟨other, hother, place, hplace⟩ := exists_form_of_mem hforms hitem
  intro hfree
  cases hfree with
  | array hitems => exact hbelow hplace (hitems other hother)

/-- The form of a value that hides null, but repeats no key, has a null member. -/
theorem HidesNull.not_nullFree {value : Value} (hhides : value.HidesNull)
    (hkeys : ¬ value.RepeatsKey) {path : String} {form : Json}
    (h : value.canonical path = .ok form) : ¬ form.NullFree := by
  induction hhides generalizing path form with
  | here hstands =>
      obtain ⟨entry, hentry, hstands⟩ := hstands
      intro hfree
      have hne : entry.2 ≠ .null := by
        intro heq
        rw [heq] at hstands
        cases hstands
      -- Without repeated keys the member of this entry stays in the form, where it is null.
      obtain ⟨place, member, hmember, hnull, -⟩ := exists_member_of_mem h hkeys hfree hentry hne
      rw [hstands.canonical_eq] at hmember
      exact hnull (Except.ok.inj hmember).symm
  | @entry entries entry hentry hbelow ih =>
      intro hfree
      have hne : entry.2 ≠ .null := by
        intro heq
        rw [heq] at hbelow
        cases hbelow
      obtain ⟨place, member, hmember, -, hfree⟩ := exists_member_of_mem h hkeys hfree hentry hne
      exact ih (fun hrepeats => hkeys (.entry hentry hrepeats)) hmember hfree
  | member _ ih => exact ih (fun hrepeats => hkeys (.member hrepeats)) h
  | list hitem _ ih =>
      exact not_nullFree_of_items h hitem (ih fun hrepeats => hkeys (.list hitem hrepeats))
  | tuple hitem _ ih =>
      exact not_nullFree_of_items h hitem (ih fun hrepeats => hkeys (.tuple hitem hrepeats))
  | record _ ih =>
      rw [canonical_record] at h
      exact ih (fun hrepeats => hkeys (.record hrepeats)) h
  | report _ ih =>
      rw [canonical_report] at h
      exact ih (fun hrepeats => hkeys (.report hrepeats)) h

/-- A value that hides no null has a canonical form without null members, which is its own canonical
form; and if no integer in it is too long to be written, its canonical text is that of what is read
from it.  Where no key comes twice, a value that does hide null has none of this: the form is its
own one, and the text that of what is read from it, just when the form has no null members.  In any
case it loses these members when it is made canonical once more, and from then on it stays as it is.

The digits of integers are the only other condition, and only on the text: a form with an integer of
too many digits has none.  Texts are made of characters, among which there are no lone surrogates.
-/
theorem canonical_stable_unless_null_hidden (value : Value) (form : Json)
    (h : value.canonical "" = .ok form) :
    (¬ value.HidesNull →
      form.NullFree ∧ form.toValue.canonical "" = .ok form ∧
        (form.Writable → ∃ (text : String) (read : Json), value.canonicalText = .ok text ∧
          Json.parse text = .ok read ∧ read.toValue.canonicalText = .ok text)) ∧
    (value.HidesNull → ¬ value.RepeatsKey → ¬ form.NullFree) ∧
    (form.toValue.canonical "" = .ok form ↔ form.NullFree) ∧
    (form.Writable → ∃ (text : String) (read : Json), value.canonicalText = .ok text ∧
      Json.parse text = .ok read ∧
      (read.toValue.canonicalText = .ok text ↔ form.NullFree)) ∧
    (¬ form.Writable → ∃ refusal, value.canonicalText = .error (.overlong refusal) ∧
      refusal.number ∈ form.integers) ∧
    form.toValue.canonical "" = .ok form.withoutNulls ∧ form.withoutNulls.NullFree := by
  have hexact := exact_of_canonical h
  -- Made canonical once more, the form loses its null members and nothing else.
  have hagain := hexact.canonical_toValue ""
  have hstable : form.toValue.canonical "" = .ok form ↔ form.NullFree := by
    rw [hagain, Except.ok.injEq, withoutNulls_eq_self_iff]
  have htext : form.Writable → ∃ (text : String) (read : Json), value.canonicalText = .ok text ∧
      Json.parse text = .ok read ∧ (read.toValue.canonicalText = .ok text ↔ form.NullFree) := by
    intro hwritable
    have hdump := dump_of_writable hwritable
    exact ⟨_, form.sorted, canonicalText_eq_ok.2 ⟨form, h, hdump⟩,
      parse_render hexact.legible hwritable, canonicalText_of_parse_iff hexact hdump⟩
  refine ⟨?_, fun hhides hkeys => hhides.not_nullFree hkeys h, hstable, htext,
    exists_overlong_of_not_writable h, hagain, nullFree_withoutNulls form⟩
  intro hhides
  have hfree := nullFree_of_not_hidesNull h hhides
  refine ⟨hfree, hstable.2 hfree, fun hwritable => ?_⟩
  obtain ⟨text, read, hwritten, hread, hiff⟩ := htext hwritable
  exact ⟨text, read, hwritten, hread, hiff.2 hfree⟩

/-- A record of an optional part that is missing, inside an enumeration member. -/
def plainNull : Value := .member (.record [("leaf", .bytes [255]), ("note", .null)])

/-- A mapping in which an enumeration member stands for null. -/
def veiledNull : Value := .mapping [(.text "a", .member .null)]

/-- The record is stable, form and text, the mapping is not. -/
theorem plainNull_stable_veiledNull_not :
    (∃ form, plainNull.canonical "" = .ok form ∧ form.toValue.canonical "" = .ok form ∧
      ∃ (text : String) (read : Json), plainNull.canonicalText = .ok text ∧
        Json.parse text = .ok read ∧ read.toValue.canonicalText = .ok text) ∧
    ∃ form, veiledNull.canonical "" = .ok form ∧ ¬ form.NullFree ∧
      form.toValue.canonical "" ≠ .ok form := by
  constructor
  · have hhides : ¬ plainNull.HidesNull := by
      intro h
      cases h with
      | member h =>
      cases h with
      | record h =>
          rcases someMapping_mapping_iff.1 h with ⟨entry, hentry, hstands⟩ | ⟨entry, hentry, hbelow⟩
          · rcases List.mem_pair.1 hentry with rfl | rfl <;> cases hstands
          · rcases List.mem_pair.1 hentry with rfl | rfl <;> cases hbelow
    obtain ⟨hstable, -⟩ := canonical_stable_unless_null_hidden plainNull _ rfl
    obtain ⟨-, hagain, htext⟩ := hstable hhides
    exact ⟨_, rfl, hagain, htext (by decide)⟩
  · have hhides : veiledNull.HidesNull := .here ⟨_, List.mem_singleton.2 rfl, .direct⟩
    have hkeys : ¬ veiledNull.RepeatsKey := by
      intro h
      rcases someMapping_mapping_iff.1 h with hrepeats | ⟨entry, hentry, hbelow⟩
      · exact hrepeats (List.nodup_cons.2 ⟨List.not_mem_nil, List.nodup_nil⟩)
      · rw [List.mem_singleton.1 hentry] at hbelow
        cases hbelow with
        | member hbelow => cases hbelow
    obtain ⟨-, hhidden, hstable, -⟩ := canonical_stable_unless_null_hidden veiledNull _ rfl
    have hnull := hhidden hhides hkeys
    exact ⟨_, rfl, hnull, fun hagain => hnull (hstable.1 hagain)⟩

/-- Not every canonical form is without null members, its own form, and written as what is read from
its text is written. -/
theorem not_every_canonical_form_stable :
    ¬ ∀ (value : Value) (form : Json), value.canonical "" = .ok form →
      form.NullFree ∧ form.toValue.canonical "" = .ok form ∧
        ∃ (text : String) (read : Json), value.canonicalText = .ok text ∧
          Json.parse text = .ok read ∧ read.toValue.canonicalText = .ok text := by
  intro h
  obtain ⟨hfree, -⟩ := h veiledNull _ rfl
  cases hfree with
  | object hnull _ => exact hnull _ (List.mem_singleton.2 rfl) rfl

end Value

end SlotEvidence
