/-
Module: SlotEvidence.Members
Purpose: Named members in the order in which their names first came up.
Trusted boundary: none
Main exports: Members, Members.get?, Members.put, Members.putAll, Members.ofList, Members.names,
  Members.ofList_of_nodup
-/

namespace SlotEvidence

/-- Named members in order.  The operations below keep the names distinct. -/
abbrev Members (α : Type) := List (String × α)

namespace Members

variable {α : Type}

def get? : Members α → String → Option α
  | [], _ => none
  | (name, x) :: rest, wanted => if name = wanted then some x else get? rest wanted

/-- Sets a member: a known name keeps its place, a new one goes to the end. -/
def put : Members α → String → α → Members α
  | [], name, x => [(name, x)]
  | (other, y) :: rest, name, x =>
      if other = name then (name, x) :: rest else (other, y) :: put rest name x

/-- Sets members one after another, so the last one of a name counts. -/
def putAll (members : Members α) (changes : List (String × α)) : Members α :=
  changes.foldl (fun members change => members.put change.1 change.2) members

/-- The members of a list in which a name may come more than once. -/
def ofList (entries : List (String × α)) : Members α := putAll [] entries

def names (members : Members α) : List String := members.map (·.1)

theorem get?_cons (other : String) (y : α) (rest : Members α) (name : String) :
    get? ((other, y) :: rest) name = if other = name then some y else get? rest name := rfl

/-- What was put under a name is found under it. -/
@[simp] theorem get?_put_self (members : Members α) (name : String) (x : α) :
    (members.put name x).get? name = some x := by
  induction members with
  | nil => simp [put, get?]
  | cons member rest ih =>
      obtain ⟨other, y⟩ := member
      by_cases h : other = name
      · simp [put, get?, h]
      · simp [put, get?, h, ih]

/-- Setting a member that is present changes no name. -/
theorem names_put_of_mem (members : Members α) {name : String} (x : α)
    (h : name ∈ members.names) : (members.put name x).names = members.names := by
  induction members with
  | nil => simp [names] at h
  | cons member rest ih =>
      obtain ⟨other, y⟩ := member
      by_cases hother : other = name
      · simp [put, names, hother]
      · have hrest : name ∈ names rest := by
          simp only [names, List.map_cons, List.mem_cons] at h
          exact h.resolve_left fun h => hother h.symm
        simpa [put, names, hother] using ih hrest

/-- Setting a new member appends its name. -/
theorem names_put_of_not_mem (members : Members α) {name : String} (x : α)
    (h : name ∉ members.names) : (members.put name x).names = members.names ++ [name] := by
  induction members with
  | nil => simp [put, names]
  | cons member rest ih =>
      obtain ⟨other, y⟩ := member
      simp only [names, List.map_cons, List.mem_cons, not_or] at h
      have hother : other ≠ name := fun e => h.1 e.symm
      simpa [put, names, hother] using ih h.2

/-- Setting a new member appends it. -/
theorem put_of_not_mem {members : Members α} {name : String} (x : α)
    (h : name ∉ members.names) : members.put name x = members ++ [(name, x)] := by
  induction members with
  | nil => rfl
  | cons member rest ih =>
      obtain ⟨other, y⟩ := member
      simp only [names, List.map_cons, List.mem_cons, not_or] at h
      rw [put, if_neg (Ne.symm h.1), ih h.2, List.cons_append]

/-- Under names that are all new, members go to the end in their order. -/
theorem putAll_of_nodup {members : Members α} {changes : List (String × α)}
    (h : (members.names ++ changes.map (·.1)).Nodup) :
    members.putAll changes = members ++ changes := by
  induction changes generalizing members with
  | nil => exact (List.append_nil members).symm
  | cons change rest ih =>
      have hnew : change.1 ∉ members.names := by
        intro hmem
        exact (List.nodup_append.1 h).2.2 _ hmem _ List.mem_cons_self rfl
      rw [putAll, List.foldl_cons, put_of_not_mem _ hnew]
      change putAll (members ++ [change]) rest = members ++ change :: rest
      rw [ih, List.append_assoc, List.singleton_append]
      rw [names, List.map_append, List.append_assoc]
      exact h

/-- A list with distinct names is kept as it is. -/
theorem ofList_of_nodup {entries : List (String × α)} (h : (entries.map (·.1)).Nodup) :
    ofList entries = entries :=
  putAll_of_nodup h

end Members

end SlotEvidence
