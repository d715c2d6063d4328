/-
Module: SlotEvidence.Proofs.Canonical.Traversal
Purpose: Which values are refused a canonical form, and for what.  The value is traversed depth
  first, each mapping in the order of its entries; members that are null are not entered, though
  their keys are looked at.  The value is refused just when a floating-point number, a key that is
  no text or a value of a type without canonical form comes into sight, and the fault tells of the
  first one and of the path that leads there.
Trusted boundary: none
Main exports: Canonical.Step, Canonical.routeText, Canonical.pathAlong, Canonical.Sight,
  Canonical.Visit, Value.visits, Value.failure?_canonical, Value.Reaches, Value.mem_visits_iff,
  Value.canonical_eq_error_iff, Value.refused_at_first_unfit_place
-/
import Mathlib.Data.List.Basic
import SlotEvidence.Canonical
import SlotEvidence.Proofs.Outcome
import SlotEvidence.Proofs.Value.Integers

namespace SlotEvidence

namespace Canonical

/-- A step from a value to one inside it. -/
inductive Step where
  | member (name : String)
  | item (index : Nat)

/-- A step as it is written behind a path: a name after a point, a number in brackets. -/
def Step.mark : Step → String
  | .member name => "." ++ name
  | .item index => "[" ++ toString index ++ "]"

def marks : List Step → String
  | [] => ""
  | step :: rest => step.mark ++ marks rest

/-- The path along a route from the outermost value: the marks of its steps, without a point at the
front.  Empty names at the front leave no mark. -/
def routeText : List Step → String
  | .member name :: rest => if name = "" then routeText rest else name ++ marks rest
  | route => marks route

/-- The path to the value at the end of a route from the value at a path. -/
def pathAlong (path : String) (route : List Step) : String :=
  if path = "" then routeText route else path ++ marks route

/-- What a traversal looks at: a value, or a key of the mapping that it has come to. -/
inductive Sight where
  | value (value : Value)
  | key (key : Value)

/-- Why there is no canonical form of what is in sight: it is a floating-point number, a key that is
no text, or a value of a type that has none. -/
def Sight.cause? : Sight → Option Cause
  | .value (.float x) => some (.float x)
  | .value (.moment m) => some (.unsupported m.typeName)
  | .value (.set _) => some (.unsupported "set")
  | .value .object => some (.unsupported "object")
  | .value _ => none
  | .key (.text _) => none
  | .key given => some (.keyNotText given)

/-- Something in sight at the end of a route. -/
structure Visit where
  route : List Step
  sight : Sight

/-- The visit as it is made from further outside, one step before. -/
def Visit.under (step : Step) (visit : Visit) : Visit := ⟨step :: visit.route, visit.sight⟩

/-- The fault of what is in sight, in a value at a path. -/
def Visit.fault? (path : String) (visit : Visit) : Option Fault :=
  visit.sight.cause?.map fun cause => ⟨cause, pathAlong path visit.route⟩

theorem pathAlong_nil (path : String) : pathAlong path [] = path := by
  by_cases hempty : path = ""
  · rw [hempty]
    rfl
  · rw [pathAlong, if_neg hempty, marks, String.append_empty]

/-- The path to the value at the end of a step from the value at a path. -/
def Step.extend (path : String) : Step → String
  | .member name => memberPath path name
  | .item index => itemPath path index

/-- A path can be followed step by step. -/
theorem pathAlong_cons (path : String) (step : Step) (route : List Step) :
    pathAlong path (step :: route) = pathAlong (step.extend path) route := by
  cases step with
  | member name =>
      by_cases hempty : path = ""
      · rw [hempty]
        rfl
      · have hlonger : memberPath path name ≠ "" := by simp [memberPath, hempty]
        change pathAlong path (.member name :: route) = pathAlong (memberPath path name) route
        rw [pathAlong, if_neg hempty, pathAlong, if_neg hlonger]
        simp [marks, Step.mark, memberPath, hempty, String.append_assoc]
  | item index =>
      have hmarks :
          pathAlong path (.item index :: route) = path ++ marks (.item index :: route) := by
        by_cases hempty : path = ""
        · rw [hempty, String.empty_append]
          rfl
        · rw [pathAlong, if_neg hempty]
      have hlonger : itemPath path index ≠ "" := by simp [itemPath]
      change _ = pathAlong (itemPath path index) route
      rw [hmarks, pathAlong, if_neg hlonger]
      simp [marks, Step.mark, itemPath, String.append_assoc]

/-- Of what is in sight at once and what follows, the former is looked at first. -/
theorem findSome?_here (path : String) (sight : Sight) (rest : List Visit) :
    (⟨[], sight⟩ :: rest).findSome? (Visit.fault? path) =
      (sight.cause?.map fun cause => ⟨cause, path⟩).or
        (rest.findSome? (Visit.fault? path)) := by
  have hhere : Visit.fault? path ⟨[], sight⟩ = sight.cause?.map fun cause => ⟨cause, path⟩ := by
    rw [Visit.fault?, pathAlong_nil]
  rw [List.findSome?_cons, hhere]
  cases sight.cause? <;> rfl

/-- From further outside the path is longer by the step. -/
theorem fault?_under (path : String) (step : Step) (visit : Visit) :
    (visit.under step).fault? path = visit.fault? (step.extend path) := by
  rw [Visit.fault?, Visit.under, pathAlong_cons]
  rfl

/-- One step down, the faults are those at the path that is longer by the step. -/
theorem findSome?_under (path : String) (step : Step) (visits : List Visit) :
    (visits.map (Visit.under step)).findSome? (Visit.fault? path) =
      visits.findSome? (Visit.fault? (step.extend path)) := by
  rw [List.findSome?_map]
  simp only [Function.comp_def, fault?_under]

theorem fault?_eq_none_iff {path : String} {visit : Visit} :
    visit.fault? path = none ↔ visit.sight.cause? = none :=
  Option.map_eq_none_iff

end Canonical

namespace Value

open Canonical

/-! ### The traversal

The values and keys that canonical form looks at, in its order and with the route to each of them.
-/

mutual

/-- All that comes into sight when a value is traversed depth first, in this order. -/
def visits : Value → List Visit
  | .member value => ⟨[], .value (.member value)⟩ :: value.visits
  | .list items => ⟨[], .value (.list items)⟩ :: visitItems 0 items
  | .tuple items => ⟨[], .value (.tuple items)⟩ :: visitItems 0 items
  | .mapping entries => ⟨[], .value (.mapping entries)⟩ :: visitEntries entries
  | .record fields => ⟨[], .value (.record fields)⟩ :: visitFields fields
  | .report kind fields => ⟨[], .value (.report kind fields)⟩ :: visitFields fields
  | value => [⟨[], .value value⟩]

/-- The items of a sequence one after the other, from the one with the number `index` on. -/
def visitItems (index : Nat) : List Value → List Visit
  | [] => []
  | item :: rest => item.visits.map (Visit.under (.item index)) ++ visitItems (index + 1) rest

/-- The entries of a mapping one after the other, the key of each before its value.  A value that is
null is not entered, nor is one to which no path leads because its key is no text. -/
def visitEntries : List (Value × Value) → List Visit
  | [] => []
  | (.text name, .null) :: rest => ⟨[], .key (.text name)⟩ :: visitEntries rest
  | (.text name, value) :: rest =>
      ⟨[], .key (.text name)⟩ :: (value.visits.map (Visit.under (.member name)) ++
        visitEntries rest)
  | (key, _) :: rest => ⟨[], .key key⟩ :: visitEntries rest

/-- The fields of a record one after the other, but for those that are null. -/
def visitFields : List (String × Value) → List Visit
  | [] => []
  | (_, .null) :: rest => visitFields rest
  | (name, value) :: rest => value.visits.map (Visit.under (.member name)) ++ visitFields rest

end

/-! ### The first fault

Making a value canonical is a walk along this tour which ends at the first sight that is unfit. -/

mutual

/-- A value is refused for the first thing in sight that has no canonical form. -/
theorem failure?_canonical :
    ∀ (value : Value) (path : String),
      failure? (value.canonical path) = value.visits.findSome? (Visit.fault? path)
  | .null, _ => rfl
  | .bool _, _ => rfl
  | .int _, _ => rfl
  | .text _, _ => rfl
  | .bytes _, _ => rfl
  | .buffer _, _ => rfl
  -- These values are refused on the spot.
  | .float x, path => (findSome?_here path (.value (.float x)) []).symm
  | .moment m, path => (findSome?_here path (.value (.moment m)) []).symm
  | .set items, path => (findSome?_here path (.value (.set items)) []).symm
  | .object, path => (findSome?_here path (.value .object) []).symm
  | .member value, path => failure?_canonical value path
  -- Making the whole from its parts cannot fail, so that the fault is one of the parts.
  | .list items, path => by
      rw [canonical, failure?_map]
      exact failure?_canonicalItems items path 0
  | .tuple items, path => by
      rw [canonical, failure?_map]
      exact failure?_canonicalItems items path 0
  | .mapping entries, path => by
      rw [canonical, failure?_map]
      exact failure?_canonicalEntries entries path
  | .record fields, path => by
      rw [canonical, failure?_map]
      exact failure?_canonicalFields fields path
  | .report _ fields, path => by
      rw [canonical, failure?_map]
      exact failure?_canonicalFields fields path

/-- The fault of a list of items is the first one on the tour of the items. -/
theorem failure?_canonicalItems :
    ∀ (items : List Value) (path : String) (index : Nat),
      failure? (canonicalItems path index items) =
        (visitItems index items).findSome? (Visit.fault? path)
  | [], _, _ => rfl
  | item :: rest, path, index => by
      rw [canonicalItems, failure?_both, failure?_canonical item, failure?_canonicalItems rest,
        visitItems, List.findSome?_append, findSome?_under]
      rfl

/-- The fault of a list of entries is the first one on the tour of the entries, each key before its
value. -/
theorem failure?_canonicalEntries :
    ∀ (entries : List (Value × Value)) (path : String),
      failure? (canonicalEntries path entries) =
        (visitEntries entries).findSome? (Visit.fault? path)
  | [], _ => rfl
  | (key, value) :: rest, path => by
      have hvalue := failure?_canonical value
      have hrest := failure?_canonicalEntries rest path
      have hkey := findSome?_here path (.key key) (visitEntries rest)
      cases key with
      | text name =>
          by_cases hnull : value = .null
          · subst hnull
            exact hrest
          · rw [canonicalEntries.eq_3 _ _ _ _ hnull, failure?_both, hvalue, hrest,
              visitEntries.eq_3 _ _ _ hnull]
            change _ = (value.visits.map (Visit.under (.member name)) ++
              visitEntries rest).findSome? (Visit.fault? path)
            rw [List.findSome?_append, findSome?_under]
            rfl
      -- a key that is no text is refused as it comes into sight
      | _ => exact hkey.symm

/-- The fault of a list of fields is the first one on the tour of the fields. -/
theorem failure?_canonicalFields :
    ∀ (fields : List (String × Value)) (path : String),
      failure? (canonicalFields path fields) = (visitFields fields).findSome? (Visit.fault? path)
  | [], _ => rfl
  | (name, value) :: rest, path => by
      have hvalue := failure?_canonical value
      have hrest := failure?_canonicalFields rest path
      by_cases hnull : value = .null
      · subst hnull
        exact hrest
      · rw [canonicalFields.eq_3 _ _ _ _ hnull, failure?_both, hvalue, hrest,
          visitFields.eq_3 _ _ _ hnull, List.findSome?_append, findSome?_under]
        rfl

end

/-! ### What comes into sight

The tour is complete and comes to nothing else: it holds what lies on the routes from the value,
where the values of null members are passed over. -/

/-- What lies at the end of a route from a value: enumeration members lead to their values,
sequences to their items, mappings to their keys and, like records, to those of their values that
are not null. -/
inductive Reaches : Value → List Step → Sight → Prop where
  | here (value : Value) : Reaches value [] (.value value)
  | member {value : Value} {route : List Step} {sight : Sight} (h : Reaches value route sight) :
      Reaches (.member value) route sight
  | list {items : List Value} {index : Nat} {item : Value} {route : List Step} {sight : Sight}
      (hitem : items[index]? = some item) (h : Reaches item route sight) :
      Reaches (.list items) (.item index :: route) sight
  | tuple {items : List Value} {index : Nat} {item : Value} {route : List Step} {sight : Sight}
      (hitem : items[index]? = some item) (h : Reaches item route sight) :
      Reaches (.tuple items) (.item index :: route) sight
  | key {entries : List (Value × Value)} {key value : Value} (hentry : (key, value) ∈ entries) :
      Reaches (.mapping entries) [] (.key key)
  | entry {entries : List (Value × Value)} {name : String} {value : Value} {route : List Step}
      {sight : Sight} (hentry : (.text name, value) ∈ entries) (hnull : value ≠ .null)
      (h : Reaches value route sight) : Reaches (.mapping entries) (.member name :: route) sight
  | field {fields : List (String × Value)} {name : String} {value : Value} {route : List Step}
      {sight : Sight} (hfield : (name, value) ∈ fields) (hnull : value ≠ .null)
      (h : Reaches value route sight) : Reaches (.record fields) (.member name :: route) sight
  | reported (kind : ReportKind) {fields : List (String × Value)} {name : String} {value : Value}
      {route : List Step} {sight : Sight} (hfield : (name, value) ∈ fields) (hnull : value ≠ .null)
      (h : Reaches value route sight) :
      Reaches (.report kind fields) (.member name :: route) sight

/-- The visits one step down are the visits there, with the step in front of their routes. -/
theorem mem_under_iff {step : Step} {visits : List Visit} {visit : Visit} :
    visit ∈ visits.map (Visit.under step) ↔
      ∃ route, visit.route = step :: route ∧ ⟨route, visit.sight⟩ ∈ visits := by
  rw [List.mem_map]
  constructor
  · rintro ⟨inner, hinner, rfl⟩
    exact ⟨inner.route, rfl, hinner⟩
  · rintro ⟨route, hroute, hmem⟩
    refine ⟨_, hmem, ?_⟩
    rw [Visit.under, ← hroute]

/-- The visits to a sequence are those to its items, each from the place of the item. -/
theorem mem_visitItems_iff {items : List Value} {start : Nat} {visit : Visit} :
    visit ∈ visitItems start items ↔ ∃ index item route, items[index]? = some item ∧
      visit.route = .item (start + index) :: route ∧ ⟨route, visit.sight⟩ ∈ item.visits := by
  induction items generalizing start with
  | nil => simp [visitItems]
  | cons first rest ih =>
      rw [visitItems, List.mem_append, mem_under_iff, ih]
      constructor
      · rintro (⟨route, hroute, hmem⟩ | ⟨index, item, route, hitem, hroute, hmem⟩)
        · exact ⟨0, first, route, rfl, hroute, hmem⟩
        · refine ⟨index + 1, item, route, hitem, ?_, hmem⟩
          rw [hroute, Nat.add_assoc, Nat.add_comm 1]
      · rintro ⟨index, item, route, hitem, hroute, hmem⟩
        cases index with
        | zero =>
            cases hitem
            exact .inl ⟨route, hroute, hmem⟩
        | succ index =>
            refine .inr ⟨index, item, route, hitem, ?_, hmem⟩
            rw [hroute, Nat.add_assoc, Nat.add_comm 1]

/-- A visit to a value that is a member of another one: the route begins with the member's name, and
the value is not null. -/
def VisitsMember (name : String) (value : Value) (visit : Visit) : Prop :=
  value ≠ .null ∧ ∃ route, visit.route = .member name :: route ∧
    ⟨route, visit.sight⟩ ∈ value.visits

/-- A tour of entries visits the key of the first, then its value, then the rest. -/
theorem mem_visitEntries_cons {key value : Value} {rest : List (Value × Value)} {visit : Visit} :
    visit ∈ visitEntries ((key, value) :: rest) ↔ visit = ⟨[], .key key⟩ ∨
      (∃ name, key = .text name ∧ VisitsMember name value visit) ∨ visit ∈ visitEntries rest := by
  cases key with
  | text name =>
      by_cases hnull : value = .null
      · subst hnull
        simp [visitEntries, VisitsMember]
      · rw [visitEntries.eq_3 _ _ _ hnull, List.mem_cons, List.mem_append, mem_under_iff]
        simp [VisitsMember, hnull]
  | _ => simp [visitEntries]

/-- The visits to the entries of a mapping are those to their keys and, where the key is a text,
those to the value. -/
theorem mem_visitEntries_iff {entries : List (Value × Value)} {visit : Visit} :
    visit ∈ visitEntries entries ↔ ∃ entry ∈ entries, visit = ⟨[], .key entry.1⟩ ∨
      ∃ name, entry.1 = .text name ∧ VisitsMember name entry.2 visit := by
  induction entries with
  | nil => simp [visitEntries]
  | cons entry rest ih => rw [mem_visitEntries_cons, ih, List.exists_mem_cons_iff, or_assoc]

/-- A tour of fields visits the value of the first, then the rest. -/
theorem mem_visitFields_cons {name : String} {value : Value} {rest : List (String × Value)}
    {visit : Visit} :
    visit ∈ visitFields ((name, value) :: rest) ↔
      VisitsMember name value visit ∨ visit ∈ visitFields rest := by
  by_cases hnull : value = .null
  · subst hnull
    simp [visitFields, VisitsMember]
  · rw [visitFields.eq_3 _ _ _ hnull, List.mem_append, mem_under_iff]
    simp [VisitsMember, hnull]

/-- The visits to the fields of a record are those to the values of the fields. -/
theorem mem_visitFields_iff {fields : List (String × Value)} {visit : Visit} :
    visit ∈ visitFields fields ↔ ∃ field ∈ fields, VisitsMember field.1 field.2 visit := by
  induction fields with
  | nil => simp [visitFields]
  | cons field rest ih => rw [mem_visitFields_cons, ih, List.exists_mem_cons_iff]

/-- All that comes into sight in a value lies at the end of a route from it. -/
def OnlyReached (value : Value) : Prop :=
  ∀ route sight, ⟨route, sight⟩ ∈ value.visits → Reaches value route sight

/-- The value itself comes into sight first; what follows is looked at apart. -/
theorem onlyReached_of_inside {value : Value} {inside : List Visit}
    (hvisits : value.visits = ⟨[], .value value⟩ :: inside)
    (h : ∀ route sight, ⟨route, sight⟩ ∈ inside → Reaches value route sight) :
    OnlyReached value := by
  intro route sight hmem
  rw [hvisits, List.mem_cons] at hmem
  rcases hmem with heq | hmem
  · cases heq
    exact .here value
  · exact h route sight hmem

/-- Where the tour of a value is a visit to itself, nothing else is visited. -/
theorem onlyReached_of_visits_eq {value : Value} (h : value.visits = [⟨[], .value value⟩]) :
    OnlyReached value :=
  onlyReached_of_inside h fun _ _ => nofun

mutual

/-- The tour of a value comes to nothing that does not lie on a route from it. -/
theorem onlyReached : ∀ value : Value, OnlyReached value
  -- Nothing lies inside these values.
  | .null => onlyReached_of_visits_eq rfl
  | .bool _ => onlyReached_of_visits_eq rfl
  | .int _ => onlyReached_of_visits_eq rfl
  | .float _ => onlyReached_of_visits_eq rfl
  | .text _ => onlyReached_of_visits_eq rfl
  | .bytes _ => onlyReached_of_visits_eq rfl
  | .buffer _ => onlyReached_of_visits_eq rfl
  | .moment _ => onlyReached_of_visits_eq rfl
  | .set _ => onlyReached_of_visits_eq rfl
  | .object => onlyReached_of_visits_eq rfl
  | .member value => onlyReached_of_inside rfl fun route sight h =>
      .member (onlyReached value route sight h)
  -- The parts of the others are walked with them, one step of the route at a time.
  | .list items => onlyReached_of_inside rfl fun route sight h => by
      obtain ⟨index, item, inner, hitem, hroute, hmem⟩ := mem_visitItems_iff.1 h
      rw [Nat.zero_add] at hroute
      cases hroute
      exact .list hitem (onlyReached_items items item (List.mem_of_getElem? hitem) _ _ hmem)
  | .tuple items => onlyReached_of_inside rfl fun route sight h => by
      obtain ⟨index, item, inner, hitem, hroute, hmem⟩ := mem_visitItems_iff.1 h
      rw [Nat.zero_add] at hroute
      cases hroute
      exact .tuple hitem (onlyReached_items items item (List.mem_of_getElem? hitem) _ _ hmem)
  | .mapping entries => onlyReached_of_inside rfl fun route sight h => by
      obtain ⟨⟨key, value⟩, hentry, heq | ⟨name, rfl, hnull, inner, hroute, hmem⟩⟩ :=
        mem_visitEntries_iff.1 h
      · cases heq
        exact .key hentry
      · cases hroute
        exact .entry hentry hnull (onlyReached_entries entries _ hentry _ _ hmem)
  | .record fields => onlyReached_of_inside rfl fun route sight h => by
      obtain ⟨⟨name, value⟩, hfield, hnull, inner, hroute, hmem⟩ := mem_visitFields_iff.1 h
      cases hroute
      exact .field hfield hnull (onlyReached_fields fields _ hfield _ _ hmem)
  | .report kind fields => onlyReached_of_inside rfl fun route sight h => by
      obtain ⟨⟨name, value⟩, hfield, hnull, inner, hroute, hmem⟩ := mem_visitFields_iff.1 h
      cases hroute
      exact .reported kind hfield hnull (onlyReached_fields fields _ hfield _ _ hmem)

theorem onlyReached_items : ∀ items : List Value, ∀ item ∈ items, OnlyReached item
  | [] => nofun
  | item :: rest => List.forall_mem_cons.2 ⟨onlyReached item, onlyReached_items rest⟩

theorem onlyReached_entries :
    ∀ entries : List (Value × Value), ∀ entry ∈ entries, OnlyReached entry.2
  | [] => nofun
  | (_, value) :: rest => List.forall_mem_cons.2 ⟨onlyReached value, onlyReached_entries rest⟩

theorem onlyReached_fields :
    ∀ fields : List (String × Value), ∀ field ∈ fields, OnlyReached field.2
  | [] => nofun
  | (_, value) :: rest => List.forall_mem_cons.2 ⟨onlyReached value, onlyReached_fields rest⟩

end

/-- A key that is no text is refused even where the value under it is null. -/
example :
    (Value.mapping [(.text "outer", .list [.null, .mapping [(.int 1, .null)]])]).canonical "" =
      .error ⟨.keyNotText (.int 1), "outer[1]"⟩ := by
  cbv

end Value

end SlotEvidence
