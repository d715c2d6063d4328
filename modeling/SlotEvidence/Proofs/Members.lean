/-
Module: SlotEvidence.Proofs.Members
Purpose: Looking up members by their names.  Where the names are distinct a lookup is membership, so
  that two such lists with the same lookups have the same members.  The names of a list that is
  built member by member are distinct.
Trusted boundary: none
Main exports: Members.get?_eq_some_iff, Members.get?_map, Members.perm_of_get?_eq,
  Members.mem_of_mem_ofList, Members.nodup_names_ofList
-/
import SlotEvidence.Members

namespace SlotEvidence

namespace Members

variable {α β : Type}

/-- What is found under a name is a member of this name. -/
theorem mem_of_get?_eq_some {members : Members α} {name : String} {x : α}
    (h : members.get? name = some x) : (name, x) ∈ members := by
  induction members with
  | nil => cases h
  | cons member rest ih =>
      obtain ⟨other, y⟩ := member
      rw [get?_cons] at h
      split at h
      · rename_i hname
        cases h
        rw [hname]
        exact List.mem_cons_self
      · exact List.mem_cons_of_mem _ (ih h)

theorem mem_names_of_get?_eq_some {members : Members α} {name : String} {x : α}
    (h : members.get? name = some x) : name ∈ members.names :=
  List.mem_map_of_mem (mem_of_get?_eq_some h)

/-- Under a name that occurs something is found. -/
theorem exists_get?_of_mem_names {members : Members α} {name : String}
    (h : name ∈ members.names) : ∃ x, members.get? name = some x := by
  induction members with
  | nil => cases h
  | cons member rest ih =>
      obtain ⟨other, y⟩ := member
      rw [get?_cons]
      split
      · exact ⟨y, rfl⟩
      · rename_i hother
        rcases List.mem_cons.1 h with rfl | hrest
        · exact absurd rfl hother
        · exact ih hrest

/-- Nothing is found just under the names that do not occur. -/
theorem get?_eq_none_iff {members : Members α} {name : String} :
    members.get? name = none ↔ name ∉ members.names := by
  constructor
  · intro hnone hmem
    obtain ⟨x, hx⟩ := exists_get?_of_mem_names hmem
    rw [hnone] at hx
    cases hx
  · intro hmem
    cases hget : members.get? name with
    | none => rfl
    | some x => exact absurd (mem_names_of_get?_eq_some hget) hmem

/-- Where the names are distinct each member is found under its name. -/
theorem get?_eq_some_iff {members : Members α} (hdistinct : members.names.Nodup) {name : String}
    {x : α} : members.get? name = some x ↔ (name, x) ∈ members := by
  refine ⟨mem_of_get?_eq_some, fun h => ?_⟩
  induction members with
  | nil => cases h
  | cons member rest ih =>
      obtain ⟨hnew, hrest⟩ := List.nodup_cons.1 hdistinct
      rcases List.mem_cons.1 h with rfl | hmem
      · exact if_pos rfl
      · have hlater : name ∈ names rest := List.mem_map_of_mem (f := (·.1)) hmem
        have hne : member.1 ≠ name := by
          rintro rfl
          exact hnew hlater
        rw [get?_cons, if_neg hne, ih hrest hmem]

/-- Changing the values does not change what is found where. -/
theorem get?_map (f : α → β) (members : Members α) (name : String) :
    get? (members.map (Prod.map id f)) name = (members.get? name).map f := by
  induction members with
  | nil => rfl
  | cons member rest ih =>
      obtain ⟨other, y⟩ := member
      change (if other = name then some (f y) else get? (rest.map (Prod.map id f)) name) =
        (if other = name then some y else get? rest name).map f
      rw [ih]
      split <;> rfl

/-- Lookups in lists of the same names agree when they agree on what is found in both. -/
theorem map_get?_eq {xs ys : Members α} (hnames : ∀ name, name ∈ xs.names ↔ name ∈ ys.names)
    {f : α → β} {name : String}
    (h : ∀ {x y}, xs.get? name = some x → ys.get? name = some y → f x = f y) :
    (xs.get? name).map f = (ys.get? name).map f := by
  cases hx : xs.get? name with
  | none =>
      rw [get?_eq_none_iff, hnames, ← get?_eq_none_iff] at hx
      rw [hx]
  | some x =>
      obtain ⟨y, hy⟩ := exists_get?_of_mem_names ((hnames name).1 (mem_names_of_get?_eq_some hx))
      rw [hy, Option.map_some, Option.map_some, h hx hy]

theorem names_map (f : α → β) (members : Members α) :
    names (members.map (Prod.map id f)) = members.names := by
  rw [names, names, List.map_map]
  rfl

theorem nodup_of_nodup_names {members : Members α} (h : members.names.Nodup) : members.Nodup :=
  List.Pairwise.of_map _ (fun _ _ hne heq => hne (congrArg _ heq)) h

theorem nodup_names_of_perm {xs ys : Members α} (hperm : xs.Perm ys) (h : xs.names.Nodup) :
    ys.names.Nodup :=
  (hperm.map _).nodup_iff.1 h

/-- The order of members with distinct names does not matter to the lookup. -/
theorem get?_perm {xs ys : Members α} (hperm : xs.Perm ys) (h : xs.names.Nodup) (name : String) :
    xs.get? name = ys.get? name := by
  apply Option.ext
  intro x
  rw [get?_eq_some_iff h, get?_eq_some_iff (nodup_names_of_perm hperm h), hperm.mem_iff]

/-- Members with distinct names and the same lookups are the same up to their order. -/
theorem perm_of_get?_eq {xs ys : Members α} (hxs : xs.names.Nodup) (hys : ys.names.Nodup)
    (h : ∀ name, xs.get? name = ys.get? name) : xs.Perm ys := by
  refine (List.perm_ext_iff_of_nodup (nodup_of_nodup_names hxs) (nodup_of_nodup_names hys)).2 ?_
  rintro ⟨name, x⟩
  rw [← get?_eq_some_iff hxs, ← get?_eq_some_iff hys, h]

/-! ### Lists in which a name may come more than once

Of the members with one name the last one counts, at the place of the first. -/

/-- Putting a member keeps the names distinct, since it replaces the one of its name. -/
theorem nodup_names_put {members : Members α} (h : members.names.Nodup) (name : String) (x : α) :
    (members.put name x).names.Nodup := by
  by_cases hmem : name ∈ members.names
  · rwa [names_put_of_mem members x hmem]
  · rw [names_put_of_not_mem members x hmem, List.nodup_append]
    refine ⟨h, List.nodup_cons.2 ⟨List.not_mem_nil, List.nodup_nil⟩, ?_⟩
    rintro other hother _ hname rfl
    rw [List.mem_singleton.1 hname] at hother
    exact hmem hother

/-- After putting a member there is nothing but it and what was there before. -/
theorem mem_of_mem_put {members : Members α} {name : String} {x : α} {member : String × α}
    (h : member ∈ members.put name x) : member = (name, x) ∨ member ∈ members := by
  induction members with
  | nil => exact .inl (List.mem_singleton.1 h)
  | cons first rest ih =>
      rw [put] at h
      split at h
      · exact (List.mem_cons.1 h).imp_right (List.mem_cons_of_mem _)
      · rcases List.mem_cons.1 h with rfl | hrest
        · exact .inr List.mem_cons_self
        · exact (ih hrest).imp_right (List.mem_cons_of_mem _)

theorem nodup_names_putAll {members : Members α} (h : members.names.Nodup)
    (changes : List (String × α)) : (members.putAll changes).names.Nodup := by
  induction changes generalizing members with
  | nil => exact h
  | cons change rest ih => exact ih (nodup_names_put h _ _)

theorem mem_of_mem_putAll {members : Members α} {changes : List (String × α)}
    {member : String × α} (h : member ∈ members.putAll changes) :
    member ∈ members ∨ member ∈ changes := by
  induction changes generalizing members with
  | nil => exact .inl h
  | cons change rest ih =>
      rcases ih h with hput | hrest
      · rcases mem_of_mem_put hput with rfl | hmem
        · exact .inr List.mem_cons_self
        · exact .inl hmem
      · exact .inr (List.mem_cons_of_mem _ hrest)

theorem nodup_names_ofList (entries : List (String × α)) : (ofList entries).names.Nodup := by
  have hnil : (names ([] : Members α)).Nodup := List.nodup_nil
  exact nodup_names_putAll hnil entries

theorem mem_of_mem_ofList {entries : List (String × α)} {member : String × α}
    (h : member ∈ ofList entries) : member ∈ entries :=
  (mem_of_mem_putAll h).resolve_left List.not_mem_nil

end Members

end SlotEvidence
