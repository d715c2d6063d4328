/-
Module: SlotEvidence.Proofs.Schema
Purpose: When data fit a schema: a record when its fields do and no key is strange, a list when its
  items do, a number when it is within its bounds.
Trusted boundary: none
Main exports: Schema.closed_eq_ok, Schema.required_eq_ok, Schema.listOf_eq_ok,
  Schema.exists_read_of_listOf, Schema.natural_int, Schema.le_of_natural
-/
import SlotEvidence.Proofs.Outcome
import SlotEvidence.Schema.Field

namespace SlotEvidence

namespace Schema

section Checked

variable {α β : Type}

theorem both_eq_ok {a : Checked α} {b : Checked β} {x : α × β} :
    a.both b = .ok x ↔ a = .ok x.1 ∧ b = .ok x.2 := by
  cases a <;> cases b <;> simp [Checked.both, Prod.ext_iff]

theorem within_eq_ok {step : Step} {a : Checked α} {x : α} :
    a.within step = .ok x ↔ a = .ok x :=
  mapError_eq_ok

theorem refuse_ne_ok {cause : Cause} {x : α} : (refuse cause : Checked α) ≠ .ok x := nofun

/-- A list of checked values is accepted just when each value is. -/
theorem all_eq_ok {index : Nat} {items : List (Checked α)} {xs : List α} :
    Checked.all index items = .ok xs ↔ items = xs.map .ok := by
  induction items generalizing index xs with
  | nil =>
      cases xs with
      | nil => exact ⟨fun _ => rfl, fun _ => rfl⟩
      | cons x xs => exact ⟨nofun, nofun⟩
  | cons item items ih =>
      simp only [Checked.all, map_eq_ok, both_eq_ok, within_eq_ok, ih]
      constructor
      · rintro ⟨⟨x, rest⟩, ⟨rfl, rfl⟩, rfl⟩
        rfl
      · intro h
        cases xs with
        | nil => cases h
        | cons x xs =>
            obtain ⟨rfl, rfl⟩ := List.cons.inj h
            exact ⟨(x, xs), ⟨rfl, rfl⟩, rfl⟩

theorem listOf_eq_ok {read : Value → Checked α} {value : Value} {xs : List α} :
    listOf read value = .ok xs ↔
      ∃ items, list value = .ok items ∧ items.map read = xs.map .ok := by
  simp only [listOf, bind_eq_ok, all_eq_ok]

/-- Each thing that was read as part of a list was read from one of its items. -/
theorem exists_read_of_listOf {read : Value → Checked α} {value : Value} {xs : List α}
    (h : listOf read value = .ok xs) {x : α} (hx : x ∈ xs) :
    ∃ items item, list value = .ok items ∧ item ∈ items ∧ read item = .ok x := by
  obtain ⟨items, hlist, hitems⟩ := listOf_eq_ok.1 h
  have hmem : Except.ok x ∈ items.map read := hitems ▸ List.mem_map_of_mem hx
  obtain ⟨item, hitem, hread⟩ := List.mem_map.1 hmem
  exact ⟨items, item, hlist, hitem, hread⟩

/-- A record fits when what is made of its entries does and no key is strange. -/
theorem closed_eq_ok {known : List String} {entries : List (Value × Value)} {a : Checked α}
    {x : α} :
    closed known entries a = .ok x ↔ a = .ok x ∧ ∀ e ∈ entries, keyDefects known e.1 = [] := by
  simp only [closed, map_eq_ok, both_eq_ok]
  split
  · rename_i hstrange
    rw [List.flatMap_eq_nil_iff] at hstrange
    constructor
    · rintro ⟨⟨y, _⟩, ⟨hy, -⟩, rfl⟩
      exact ⟨hy, hstrange⟩
    · rintro ⟨hx, -⟩
      exact ⟨(x, ()), ⟨hx, rfl⟩, rfl⟩
  · rename_i hstrange
    rw [List.flatMap_eq_nil_iff] at hstrange
    constructor
    · rintro ⟨_, ⟨-, h⟩, -⟩
      cases h
    · rintro ⟨-, h⟩
      exact absurd h hstrange

/-- A required member is read just when it is there and fits. -/
theorem required_eq_ok {entries : List (Value × Value)} {name : String} {read : Value → Checked α}
    {x : α} :
    required entries name read = .ok x ↔
      ∃ value, member? name entries = some value ∧ read value = .ok x := by
  unfold required
  cases member? name entries with
  | none => simp [within_eq_ok, refuse_ne_ok]
  | some value => simp [within_eq_ok]

/-- An optional member is read as what is there, or as its standard value if there is none. -/
theorem optional_eq_ok {entries : List (Value × Value)} {name : String} {absent : α}
    {read : Value → Checked α} {x : α} :
    optional entries name absent read = .ok x ↔ member? name entries = none ∧ x = absent ∨
      ∃ value, member? name entries = some value ∧ read value = .ok x := by
  unfold optional
  cases member? name entries with
  | none => simp [eq_comm]
  | some value => simp [within_eq_ok]

theorem optional_of_member? {entries : List (Value × Value)} {name : String} {absent : α}
    {read : Value → Checked α} {value : Value} {x : α} (h : member? name entries = some value)
    (hread : read value = .ok x) : optional entries name absent read = .ok x :=
  optional_eq_ok.2 (.inr ⟨value, h, hread⟩)

/-- What an optional field gives was read, or it stands for a missing field. -/
theorem optional_cases {entries : List (Value × Value)} {name : String} {absent : α}
    {read : Value → Checked α} {x : α} (h : optional entries name absent read = .ok x) :
    x = absent ∨ ∃ value, read value = .ok x := by
  rcases optional_eq_ok.1 h with ⟨-, rfl⟩ | ⟨value, -, hread⟩
  · exact .inl rfl
  · exact .inr ⟨value, hread⟩

end Checked

/-- A natural number within its bound is taken as it is. -/
theorem natural_int {n : Nat} {maximum? : Option Nat} (h : ∀ maximum ∈ maximum?, n ≤ maximum) :
    natural maximum? (.int n) = .ok n := by
  apply bind_eq_ok.2
  refine ⟨n, rfl, ?_⟩
  rw [if_neg (Int.not_lt.2 (Int.natCast_nonneg n)), Int.toNat_natCast]
  cases maximum? with
  | none => rfl
  | some maximum => exact if_neg (Nat.not_lt.2 (h maximum rfl))

/-- An integer that is accepted as a natural number is this number. -/
theorem eq_of_natural_int {maximum? : Option Nat} {n : Int} {m : Nat}
    (h : natural maximum? (.int n) = .ok m) : n = m := by
  obtain ⟨_, hn, hm⟩ := bind_eq_ok.1 h
  cases hn
  split at hm
  · cases hm
  · rename_i hpositive
    have hsize : m = n.toNat := by
      split at hm
      · split at hm
        · cases hm
        · cases hm
          rfl
      · cases hm
        rfl
    rw [hsize, Int.toNat_of_nonneg (Int.not_lt.1 hpositive)]

/-- A natural number that is accepted does not exceed its bound. -/
theorem le_of_natural {maximum : Nat} {value : Value} {n : Nat}
    (h : natural (some maximum) value = .ok n) : n ≤ maximum := by
  obtain ⟨m, -, hm⟩ := bind_eq_ok.1 h
  split at hm
  · cases hm
  · dsimp only at hm
    split at hm
    · cases hm
    · rename_i hbound
      cases hm
      exact Nat.le_of_not_lt hbound

end Schema

end SlotEvidence
