/-
Module: SlotEvidence.Bytes
Purpose: Byte strings, 32-byte keys and hashes, fixed-width integers, and the splitting of a list
  into consecutive slices.
Specification: SPEC_FULL 3, the order of hashes
Trusted boundary: none
Main exports: Bytes, Bytes.before, Bytes32, littleEndian, ofLittleEndian, slices
-/

namespace SlotEvidence

abbrev Bytes := List UInt8

namespace Bytes

/-- The order of byte strings: the first difference decides, and a proper initial part comes
first.  On strings of one length it is the order of the unsigned big-endian numbers. -/
def before : Bytes → Bytes → Bool
  | _, [] => false
  | [], _ :: _ => true
  | a :: as, b :: bs => a.toNat < b.toNat || (a == b && before as bs)

@[simp] theorem before_nil (a : Bytes) : before a [] = false := by
  cases a <;> rfl

@[simp] theorem nil_before_cons (b : UInt8) (bs : Bytes) : before [] (b :: bs) = true := rfl

@[simp] theorem before_cons_cons (a b : UInt8) (as bs : Bytes) :
    before (a :: as) (b :: bs) = (decide (a.toNat < b.toNat) || (a == b && before as bs)) := rfl

/-- No byte string comes before itself. -/
theorem before_irrefl (a : Bytes) : before a a = false := by
  induction a with
  | nil => rfl
  | cons x xs ih => simp [ih]

/-- The order of byte strings is transitive: the first place where the outer two differ is the first
of the two places where neighbours do. -/
theorem before_trans {a b c : Bytes} (hab : before a b = true) (hbc : before b c = true) :
    before a c = true := by
  induction a generalizing b c with
  | nil =>
      cases c with
      | nil => simp at hbc
      | cons _ _ => rfl
  | cons x xs ih =>
      cases b with
      | nil => simp at hab
      | cons y ys =>
          cases c with
          | nil => simp at hbc
          | cons z zs =>
              simp only [before_cons_cons, Bool.or_eq_true, decide_eq_true_eq, Bool.and_eq_true,
                beq_iff_eq] at hab hbc ⊢
              rcases hab with hxy | ⟨rfl, hab⟩ <;> rcases hbc with hyz | ⟨rfl, hbc⟩
              · exact .inl (by omega)
              · exact .inl hxy
              · exact .inl hyz
              · exact .inr ⟨rfl, ih hab hbc⟩

/-- Of two byte strings one comes first, or they are equal. -/
theorem before_total (a b : Bytes) : before a b = true ∨ a = b ∨ before b a = true := by
  induction a generalizing b with
  | nil => cases b <;> simp
  | cons x xs ih =>
      cases b with
      | nil => simp
      | cons y ys =>
          simp only [before_cons_cons, Bool.or_eq_true, decide_eq_true_eq, Bool.and_eq_true,
            beq_iff_eq, List.cons.injEq]
          rcases Nat.lt_trichotomy x.toNat y.toNat with h | h | h
          · exact .inl (.inl h)
          · obtain rfl := UInt8.toNat_inj.1 h
            rcases ih ys with h | h | h
            · exact .inl (.inr ⟨rfl, h⟩)
            · exact .inr (.inl ⟨rfl, h⟩)
            · exact .inr (.inr (.inr ⟨rfl, h⟩))
          · exact .inr (.inr (.inl h))

end Bytes

/-- The number of bytes of every hash, account address and blockhash. -/
def hashLength : Nat := 32

/-- A byte string of exactly 32 bytes. -/
structure Bytes32 where
  bytes : Bytes
  length_bytes : bytes.length = hashLength
deriving DecidableEq

namespace Bytes32

/-- The 32-byte string with these bytes, if there are 32 of them. -/
def ofBytes? (bytes : Bytes) : Option Bytes32 :=
  if h : bytes.length = hashLength then some ⟨bytes, h⟩ else none

def zero : Bytes32 := ⟨List.replicate hashLength 0, List.length_replicate⟩

theorem ext {a b : Bytes32} (h : a.bytes = b.bytes) : a = b := by
  cases a; cases b; cases h; rfl

@[simp] theorem ofBytes?_bytes (a : Bytes32) : ofBytes? a.bytes = some a := by
  simp [ofBytes?, a.length_bytes]

/-- A byte string makes a key just when it has the length of one, and the key has these bytes. -/
theorem ofBytes?_eq_some_iff {bytes : Bytes} {a : Bytes32} :
    ofBytes? bytes = some a ↔ a.bytes = bytes := by
  constructor
  · intro h
    unfold ofBytes? at h
    split at h
    · cases h; rfl
    · cases h
  · rintro rfl
    exact ofBytes?_bytes a

end Bytes32

/-- The lowest `width` bytes of a number, the least significant first. -/
def littleEndian : (width : Nat) → Nat → Bytes
  | 0, _ => []
  | width + 1, n => UInt8.ofNat n :: littleEndian width (n / 256)

/-- The number whose bytes these are, the least significant first. -/
def ofLittleEndian : Bytes → Nat
  | [] => 0
  | b :: rest => b.toNat + 256 * ofLittleEndian rest

@[simp] theorem length_littleEndian (width n : Nat) : (littleEndian width n).length = width := by
  induction width generalizing n with
  | zero => rfl
  | succ width ih => simp [littleEndian, ih]

/-- A number that fits the width is read back from its bytes. -/
theorem ofLittleEndian_littleEndian {width n : Nat} (h : n < Nat.pow 256 width) :
    ofLittleEndian (littleEndian width n) = n := by
  induction width generalizing n with
  | zero =>
      have hn : n = 0 := Nat.lt_one_iff.1 h
      simp [littleEndian, ofLittleEndian, hn]
  | succ width ih =>
      have hdiv : n / 256 < Nat.pow 256 width := (Nat.div_lt_iff_lt_mul (by decide)).2 h
      simp only [littleEndian, ofLittleEndian, ih hdiv, UInt8.toNat_ofNat']
      omega

/-- Bytes are written back from the number that they stand for, at their own width. -/
theorem littleEndian_ofLittleEndian (bytes : Bytes) :
    littleEndian bytes.length (ofLittleEndian bytes) = bytes := by
  induction bytes with
  | nil => rfl
  | cons b rest ih =>
      have hb : b.toNat < 256 := b.toNat_lt
      have hdiv : (b.toNat + 256 * ofLittleEndian rest) / 256 = ofLittleEndian rest := by omega
      simp only [List.length_cons, littleEndian, ofLittleEndian, hdiv, ih, List.cons.injEq,
        and_true]
      apply UInt8.toNat_inj.1
      simp only [UInt8.toNat_ofNat']
      omega

theorem ofLittleEndian_lt (bytes : Bytes) : ofLittleEndian bytes < Nat.pow 256 bytes.length := by
  induction bytes with
  | nil => exact Nat.one_pos
  | cons b rest ih =>
      have hb : b.toNat < 256 := b.toNat_lt
      have hpow : Nat.pow 256 (rest.length + 1) = Nat.pow 256 rest.length * 256 := rfl
      rw [List.length_cons, hpow, ofLittleEndian]
      omega

/-- The list cut into consecutive slices of `width` elements; the last one may be shorter, and the
empty list has none. -/
def slices {α : Type} (width : Nat) (positive : 0 < width) : List α → List (List α)
  | [] => []
  | x :: xs =>
      (x :: xs).take width :: slices width positive ((x :: xs).drop width)
termination_by xs => xs.length
decreasing_by simp only [List.length_drop, List.length_cons]; omega

section Slices

variable {α : Type} (width : Nat) (positive : 0 < width)

@[simp] theorem slices_nil : slices width positive ([] : List α) = [] := by
  rw [slices]

/-- The recursion of the slices, without the bound on the length that ends it. -/
theorem slices_of_ne_nil {xs : List α} (h : xs ≠ []) :
    slices width positive xs = xs.take width :: slices width positive (xs.drop width) := by
  cases xs with
  | nil => exact absurd rfl h
  | cons x xs => rw [slices]

/-- The slices in order are the whole list. -/
theorem flatten_slices (xs : List α) : (slices width positive xs).flatten = xs := by
  fun_induction slices width positive xs with
  | case1 => rfl
  | case2 x xs ih => rw [List.flatten_cons, ih, List.take_append_drop]

/-- There are as many slices as the width goes into the length, rounded up. -/
theorem length_slices (xs : List α) :
    (slices width positive xs).length = (xs.length + width - 1) / width := by
  fun_induction slices width positive xs with
  | case1 => simp [Nat.div_eq_of_lt (Nat.sub_lt positive Nat.one_pos)]
  | case2 x xs ih =>
      rw [List.length_cons, ih, List.length_drop]
      by_cases h : (x :: xs).length ≤ width
      · have hzero : ((x :: xs).length - width + width - 1) / width = 0 :=
          Nat.div_eq_of_lt (by omega)
        have hone : ((x :: xs).length + width - 1) / width = 1 := by
          apply Nat.div_eq_of_lt_le
          · simp only [List.length_cons]; omega
          · omega
        rw [hzero, hone]
      · have hsub :
            (x :: xs).length + width - 1 = (x :: xs).length - width + width - 1 + width := by
          omega
        rw [hsub, Nat.add_div_right _ positive]

end Slices

end SlotEvidence
