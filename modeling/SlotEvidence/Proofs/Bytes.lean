/-
Module: SlotEvidence.Proofs.Bytes
Purpose: Numbers and slices in byte strings: a number is read back from its bytes, an element of a
  list is found again in the slice of a number, and the slices of a list are its only parts that
  have the width, where the last one may be shorter.
Trusted boundary: none
Main exports: littleEndian_inj, FullButLast, slices_eq_iff, slices_flatten,
  length_of_mem_slices_of_dvd, sliceAt, getElem?_slices, getElem?_sliceAt, getElem?_sliceAt_div
-/
import SlotEvidence.Bytes

namespace SlotEvidence

/-- Numbers that fit in a width are known by their bytes. -/
theorem littleEndian_inj {width m n : Nat} (hm : m < Nat.pow 256 width)
    (hn : n < Nat.pow 256 width) (h : littleEndian width m = littleEndian width n) : m = n := by
  rw [← ofLittleEndian_littleEndian hm, h, ofLittleEndian_littleEndian hn]

section Slices

variable {α : Type} {width : Nat} (positive : 0 < width)

/-- A list whose length is a multiple of the width has no short slice. -/
theorem length_of_mem_slices_of_dvd {xs slice : List α} (hdvd : width ∣ xs.length)
    (h : slice ∈ slices width positive xs) : slice.length = width := by
  fun_induction slices width positive xs with
  | case1 => cases h
  | case2 x xs ih =>
      have hle : width ≤ (x :: xs).length := Nat.le_of_dvd (Nat.succ_pos _) hdvd
      rcases List.mem_cons.1 h with rfl | h
      · rw [List.length_take, Nat.min_eq_left hle]
      · refine ih ?_ h
        rw [List.length_drop]
        exact Nat.dvd_sub hdvd (Nat.dvd_refl width)

/-- Parts that have a width, except that the last one may be shorter, but not empty. -/
structure FullButLast (width : Nat) (parts : List (List α)) : Prop where
  full : ∀ part ∈ parts.dropLast, part.length = width
  last : ∀ part ∈ parts.getLast?, 0 < part.length ∧ part.length ≤ width

theorem fullButLast_nil : FullButLast width ([] : List (List α)) where
  full := by simp
  last := by simp

/-- A part that others follow is full, and they are full but for the last one. -/
theorem fullButLast_cons_iff (hwidth : 0 < width) {part : List α} {rest : List (List α)} :
    FullButLast width (part :: rest) ↔
      0 < part.length ∧ part.length ≤ width ∧ (rest ≠ [] → part.length = width) ∧
        FullButLast width rest := by
  cases rest with
  | nil =>
      constructor
      · rintro ⟨-, hlast⟩
        obtain ⟨hpos, hle⟩ := hlast part rfl
        exact ⟨hpos, hle, fun h => absurd rfl h, fullButLast_nil⟩
      · rintro ⟨hpos, hle, -, -⟩
        refine ⟨by simp, ?_⟩
        rintro _ ⟨⟩
        exact ⟨hpos, hle⟩
  | cons next rest =>
      constructor
      · rintro ⟨hfull, hlast⟩
        rw [List.dropLast_cons_cons] at hfull
        obtain ⟨hpart, hrest⟩ := List.forall_mem_cons.1 hfull
        rw [List.getLast?_cons_cons] at hlast
        exact ⟨hpart ▸ hwidth, Nat.le_of_eq hpart, fun _ => hpart, hrest, hlast⟩
      · rintro ⟨-, -, hpart, hrest, hlast⟩
        refine ⟨?_, ?_⟩
        · rw [List.dropLast_cons_cons]
          exact List.forall_mem_cons.2 ⟨hpart (List.cons_ne_nil _ _), hrest⟩
        · rw [List.getLast?_cons_cons]
          exact hlast

/-- All slices but the last have the full width, and the last is not empty. -/
theorem fullButLast_slices (xs : List α) : FullButLast width (slices width positive xs) := by
  fun_induction slices width positive xs with
  | case1 => exact fullButLast_nil
  | case2 x xs ih =>
      refine (fullButLast_cons_iff positive).2 ⟨?_, ?_, ?_, ih⟩
      · simp only [List.length_take, List.length_cons]
        omega
      · exact List.length_take_le _ _
      · -- slices follow only if something is left behind the first one
        intro hmore
        have hrest : (x :: xs).drop width ≠ [] := by
          intro hnil
          rw [hnil, slices_nil] at hmore
          exact hmore rfl
        have hlt : width < (x :: xs).length := by
          rwa [Ne, List.drop_eq_nil_iff, Nat.not_le] at hrest
        exact List.length_take_of_le (Nat.le_of_lt hlt)

/-- A list has no other parts that are full but for the last one. -/
theorem slices_eq_iff {xs : List α} {parts : List (List α)} :
    slices width positive xs = parts ↔ parts.flatten = xs ∧ FullButLast width parts := by
  constructor
  · rintro rfl
    exact ⟨flatten_slices width positive xs, fullButLast_slices positive xs⟩
  · rintro ⟨rfl, h⟩
    induction parts with
    | nil => exact slices_nil width positive
    | cons part rest ih =>
        obtain ⟨hpos, hle, hpart, hrest⟩ := (fullButLast_cons_iff positive).1 h
        have hne : (part :: rest).flatten ≠ [] := by
          rw [List.flatten_cons, ← List.length_pos_iff, List.length_append]
          omega
        rw [slices_of_ne_nil width positive hne, List.flatten_cons]
        -- only a part that others follow is known to be as long as what is cut off first
        by_cases hmore : rest = []
        · rw [hmore, List.flatten_nil, List.append_nil, List.take_of_length_le hle,
            List.drop_of_length_le hle, slices_nil]
        · rw [List.take_left' (hpart hmore), List.drop_left' (hpart hmore), ih hrest]

/-- Parts of one length are the slices of the list that they make up. -/
theorem slices_flatten {parts : List (List α)} (h : ∀ part ∈ parts, part.length = width) :
    slices width positive parts.flatten = parts := by
  have hfull : FullButLast width parts := by
    constructor
    · intro part hpart
      exact h part (List.dropLast_subset parts hpart)
    · intro part hpart
      have hlength := h part (List.mem_of_mem_getLast? hpart)
      exact ⟨hlength ▸ positive, Nat.le_of_eq hlength⟩
  exact (slices_eq_iff positive).2 ⟨rfl, hfull⟩

/-- The first parts are as long as so many full ones, or they are the whole list. -/
theorem FullButLast.length_flatten_take (hwidth : 0 < width) {parts : List (List α)}
    (h : FullButLast width parts) (number : Nat) :
    (parts.take number).flatten.length = min (number * width) parts.flatten.length := by
  induction parts generalizing number with
  | nil => simp
  | cons part rest ih =>
      cases number with
      | zero => simp
      | succ number =>
          obtain ⟨-, hle, hpart, hrest⟩ := (fullButLast_cons_iff hwidth).1 h
          rw [List.take_succ_cons, List.flatten_cons, List.flatten_cons, List.length_append,
            List.length_append, ih hrest, Nat.succ_mul]
          by_cases hmore : rest = []
          · simp only [hmore, List.flatten_nil, List.length_nil]
            omega
          · rw [hpart hmore]
            omega

end Slices

/-- The slice of a list with a number, counted from zero. -/
def sliceAt {α : Type} (width : Nat) (xs : List α) (number : Nat) : List α :=
  (xs.drop (number * width)).take width

section SliceAt

variable {α β : Type} (width : Nat)

theorem map_sliceAt (f : α → β) (xs : List α) (number : Nat) :
    (sliceAt width xs number).map f = sliceAt width (xs.map f) number := by
  simp [sliceAt, List.map_take, List.map_drop]

theorem length_sliceAt_le (xs : List α) (number : Nat) :
    (sliceAt width xs number).length ≤ width := by
  simp only [sliceAt, List.length_take]
  omega

/-- The last slice may be short, and past the end slices are empty. -/
theorem length_sliceAt (xs : List α) (number : Nat) :
    (sliceAt width xs number).length = min width (xs.length - number * width) := by
  simp [sliceAt]

/-- A slice goes from one multiple of the width to the next one, or to the end of the list. -/
theorem sliceAt_eq_extract (xs : List α) (number : Nat) :
    sliceAt width xs number =
      xs.extract (number * width) (min ((number + 1) * width) xs.length) := by
  have hwidth : (number + 1) * width - number * width = width := by
    rw [Nat.succ_mul, Nat.add_sub_cancel_left]
  rw [sliceAt, List.extract_eq_take_drop, ← Nat.sub_min_sub_right, hwidth, ← List.length_drop,
    ← List.take_eq_take_min]

theorem mem_of_mem_sliceAt {xs : List α} {number : Nat} {x : α}
    (h : x ∈ sliceAt width xs number) : x ∈ xs :=
  List.mem_of_mem_drop (List.mem_of_mem_take h)

/-- The elements of a slice lie in the list from a multiple of the width on. -/
theorem getElem?_sliceAt (xs : List α) (number place : Nat) :
    (sliceAt width xs number)[place]? =
      if place < width then xs[number * width + place]? else none := by
  simp only [sliceAt, List.getElem?_take, List.getElem?_drop]

/-- An element of the list lies in the slice whose number is its place divided by the width. -/
theorem getElem?_sliceAt_div (positive : 0 < width) (xs : List α) (place : Nat) :
    (sliceAt width xs (place / width))[place % width]? = xs[place]? := by
  rw [getElem?_sliceAt, if_pos (Nat.mod_lt _ positive), Nat.mul_comm, Nat.div_add_mod]

/-- The slice of a number is among the slices as long as it begins within the list. -/
theorem getElem?_slices (positive : 0 < width) (xs : List α) (number : Nat) :
    (slices width positive xs)[number]? =
      if number * width < xs.length then some (sliceAt width xs number) else none := by
  fun_induction slices width positive xs generalizing number with
  | case1 => simp
  | case2 x xs ih =>
      cases number with
      | zero => simp [sliceAt]
      | succ number =>
          rw [List.getElem?_cons_succ, ih, List.length_drop, sliceAt, sliceAt, List.drop_drop,
            Nat.succ_mul, Nat.add_comm width]
          have hiff : number * width < (x :: xs).length - width ↔
              number * width + width < (x :: xs).length := by
            omega
          simp only [hiff]

end SliceAt

theorem length_of_mem_map_bytes (row : List Bytes32) :
    ∀ c ∈ row.map (·.bytes), c.length = hashLength :=
  List.forall_mem_map.2 fun b _ => b.length_bytes

end SlotEvidence
