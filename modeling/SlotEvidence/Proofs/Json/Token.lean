/-
Module: SlotEvidence.Proofs.Json.Token
Purpose: The tokens of what is written: marks, texts between quotes, and the texts of null, truth
  values and integers, which end where a value is delimited.  What is read in one token is a literal
  or a number that could have been written.
Trusted boundary: none
Main exports: Json.tokens_mark, Json.tokens_text, Json.ReadsAs, Json.readsAs_int, Json.Scalar,
  Json.scalar_of_mem_tokens
-/
import Mathlib.Tactic.SplitIfs
import SlotEvidence.Proofs.Json.Number
import SlotEvidence.Proofs.Json.Text

namespace SlotEvidence

namespace Json

/-- A mark is a token of its own. -/
theorem tokens_mark {c : Char} {token : Token} (h : mark? c = some token) (position : Nat)
    (rest : List Char) :
    tokens position (c :: rest) = ⟨token, position⟩ :: tokens (position + 1) rest := by
  have hmark : isBlank c = false ∧ c ≠ '"' := by
    unfold mark? at h
    split_ifs at h <;> subst_vars <;> decide
  rw [tokens.eq_def]
  dsimp only
  rw [hmark.1, if_neg Bool.false_ne_true, if_neg hmark.2, h]

/-- A text that was written is one token, whatever follows it. -/
theorem tokens_text (s : String) (position : Nat) (rest : List Char) :
    tokens position (renderText s ++ rest) =
      ⟨.text s, position⟩ :: tokens (position + (renderText s).length) rest := by
  have hread := readText_flatMap position (position + 1) s.toList rest
  have hdrop : (s.toList.flatMap escapeChar ++ '"' :: rest).drop
      ((s.toList.flatMap escapeChar).length + 1) = rest := by
    rw [← List.singleton_append, ← List.append_assoc]
    exact List.drop_left' List.length_append
  have hlength : position + (renderText s).length =
      position + 1 + ((s.toList.flatMap escapeChar).length + 1) := by
    rw [renderText, List.length_append, List.length_cons, List.length_singleton]
    omega
  rw [hlength, renderText, List.append_assoc, List.cons_append, tokens.eq_def]
  dsimp only [List.append_eq]
  rw [List.singleton_append, if_neg (by decide), if_pos rfl, hread]
  dsimp only
  rw [String.ofList_toList, hdrop]

/-- A text is read as a scalar value wherever it is delimited. -/
def ReadsAs (value : Json) (text : List Char) : Prop :=
  ∀ {position : Nat} {rest : List Char}, Delimited rest →
    tokens position (text ++ rest) =
      ⟨.scalar value, position⟩ :: tokens (position + text.length) rest

/-- A name or a number is one token, as long as the reader takes it. -/
theorem tokens_scalar {c : Char} (hblank : isBlank c = false) (hquote : c ≠ '"')
    (hmark : mark? c = none) {more rest : List Char} {value : Json} (position : Nat)
    (h : (readName? (c :: more ++ rest)).or (readNumber? (c :: more ++ rest)) =
      some (value, (c :: more).length)) :
    tokens position (c :: more ++ rest) =
      ⟨scalarToken value, position⟩ :: tokens (position + (c :: more).length) rest := by
  rw [List.cons_append] at h ⊢
  rw [tokens.eq_def]
  dsimp only
  rw [hblank, if_neg Bool.false_ne_true, if_neg hquote, hmark]
  dsimp only
  rw [h]
  dsimp only
  rw [List.length_cons, Nat.add_sub_cancel, List.drop_left]

theorem names_eq :
    names =
      [(['n', 'u', 'l', 'l'], .null), (['t', 'r', 'u', 'e'], .bool true),
       (['f', 'a', 'l', 's', 'e'], .bool false), (['N', 'a', 'N'], .float .nan),
       (['I', 'n', 'f', 'i', 'n', 'i', 't', 'y'], .float (.infinity false)),
       (['-', 'I', 'n', 'f', 'i', 'n', 'i', 't', 'y'], .float (.infinity true))] :=
  rfl

theorem readsAs_null : ReadsAs .null Json.null.render := by
  intro position rest _
  change tokens position ('n' :: ['u', 'l', 'l'] ++ rest) = _
  refine @tokens_scalar 'n' (by decide) (by decide) (by decide) _ rest .null position ?_
  simp [readName?, names_eq]

theorem readsAs_bool (b : Bool) : ReadsAs (.bool b) (Json.bool b).render := by
  intro position rest _
  cases b with
  | true =>
      change tokens position ('t' :: ['r', 'u', 'e'] ++ rest) = _
      refine @tokens_scalar 't' (by decide) (by decide) (by decide) _ rest (.bool true) position ?_
      simp [readName?, names_eq]
  | false =>
      change tokens position ('f' :: ['a', 'l', 's', 'e'] ++ rest) = _
      refine @tokens_scalar 'f' (by decide) (by decide) (by decide) _ rest (.bool false) position ?_
      simp [readName?, names_eq]

/-- What a digit is not. -/
theorem ne_of_isDigit {c d : Char} (hc : c.isDigit = true) (hd : d.isDigit = false) : c ≠ d := by
  rintro rfl
  rw [hc] at hd
  cases hd

/-- No literal name begins with a digit, nor does one with a minus and a digit. -/
theorem readName?_eq_none {sign : List Char} (hsign : sign = [] ∨ sign = ['-']) {c : Char}
    (h : c.isDigit = true) (rest : List Char) : readName? (sign ++ c :: rest) = none := by
  have hne : ∀ d : Char, d.isDigit = false → ¬d = c := fun d hd => (ne_of_isDigit h hd).symm
  rcases hsign with rfl | rfl <;> simp [readName?, names_eq, hne]

theorem exists_toDigits_eq_cons (n : Nat) :
    ∃ c more, Nat.toDigits 10 n = c :: more ∧ c.isDigit = true := by
  obtain ⟨c, more, heq⟩ := List.exists_cons_of_ne_nil (@Nat.toDigits_ne_nil n 10)
  have hmem : c ∈ Nat.toDigits 10 n := by
    rw [heq]
    exact List.mem_cons_self
  exact ⟨c, more, heq, Nat.isDigit_of_mem_toDigits (by decide) (Nat.le_refl 10) hmem⟩

/-- The text of an integer is one token, if the integer has no more digits than are read. -/
theorem readsAs_int {n : Int} (h : Text.Writable n) : ReadsAs (.int n) (Json.int n).render := by
  intro position rest hrest
  have htoken : Token.scalar (.int n) = scalarToken (.int n) := (if_pos h).symm
  have hnumber := readNumber?_toString n hrest
  rw [render, htoken]
  clear h htoken
  -- the sign decides which character comes first; both kinds of text begin no literal name
  cases n with
  | ofNat n =>
      obtain ⟨c, more, heq, hc⟩ := exists_toDigits_eq_cons n
      rw [toList_toString_ofNat, heq] at hnumber ⊢
      have hne : ∀ d : Char, d.isDigit = false → c ≠ d := fun d hd => ne_of_isDigit hc hd
      apply tokens_scalar
      · simp [isBlank, hne]
      · exact hne _ rfl
      · simp [mark?, hne]
      · rw [hnumber, List.cons_append, ← List.nil_append (c :: _), readName?_eq_none (.inl rfl) hc]
        rfl
  | negSucc n =>
      obtain ⟨c, more, heq, hc⟩ := exists_toDigits_eq_cons (n + 1)
      rw [toList_toString_negSucc, heq] at hnumber ⊢
      apply tokens_scalar (by decide) (by decide) (by decide)
      rw [hnumber, List.cons_append, List.cons_append, ← List.singleton_append,
        readName?_eq_none (.inr rfl) hc]
      rfl

/-! ### What a token can hold

Whatever the text is, a token of a value holds no array and no object, and no integer that could not
be written again.  These are the facts about tokens that properties of read values start from. -/

/-- A literal or a number that can be written. -/
inductive Scalar : Json → Prop where
  | null : Scalar .null
  | bool (b : Bool) : Scalar (.bool b)
  | int {n : Int} (h : Text.Writable n) : Scalar (.int n)
  | float (x : Binary64) : Scalar (.float x)

/-- What a name or a number is read as is no container. -/
def Atomic (value : Json) : Prop :=
  value = .null ∨ (∃ b, value = .bool b) ∨ (∃ n, value = .int n) ∨ ∃ x, value = .float x

/-- The names stand for null, the truth values and the floats that are no numbers. -/
theorem atomic_of_readName? {chars : List Char} {value : Json} {length : Nat}
    (h : readName? chars = some (value, length)) : value.Atomic := by
  obtain ⟨⟨name, other⟩, hfind, heq⟩ := Option.map_eq_some_iff.1 h
  cases heq
  have hmem := List.mem_of_find?_eq_some hfind
  simp only [names, List.mem_cons, Prod.mk.injEq, List.not_mem_nil, or_false] at hmem
  obtain ⟨-, rfl⟩ | ⟨-, rfl⟩ | ⟨-, rfl⟩ | ⟨-, rfl⟩ | ⟨-, rfl⟩ | ⟨-, rfl⟩ := hmem
  · exact .inl rfl
  · exact .inr (.inl ⟨_, rfl⟩)
  · exact .inr (.inl ⟨_, rfl⟩)
  · exact .inr (.inr (.inr ⟨_, rfl⟩))
  · exact .inr (.inr (.inr ⟨_, rfl⟩))
  · exact .inr (.inr (.inr ⟨_, rfl⟩))

/-- A number stands for an integer with a text, or for a float. -/
theorem atomic_of_readNumber? {chars : List Char} {value : Json} {length : Nat}
    (h : readNumber? chars = some (value, length)) : value.Atomic := by
  unfold readNumber? at h
  split at h
  dsimp only at h
  split at h
  · cases h
  · split at h
    · cases h
      exact .inr (.inr (.inr ⟨_, rfl⟩))
    · split at h
      · cases h
        exact .inr (.inr (.inl ⟨_, rfl⟩))
      · cases h
        exact .inr (.inr (.inr ⟨_, rfl⟩))

/-- The limit on digits leaves only integers that can be written. -/
theorem scalar_of_scalarToken {read value : Json} (hread : read.Atomic)
    (h : scalarToken read = .scalar value) : value.Scalar := by
  rcases hread with rfl | ⟨b, rfl⟩ | ⟨n, rfl⟩ | ⟨x, rfl⟩
  · cases h
    exact .null
  · cases h
    exact .bool b
  · by_cases hn : Text.Writable n
    · rw [scalarToken, if_pos hn] at h
      cases h
      exact .int hn
    · rw [scalarToken, if_neg hn] at h
      cases h
  · cases h
    exact .float x

/-- Whatever comes as a scalar among the tokens has no parts, and has a text if it is an integer. -/
theorem scalar_of_mem_tokens {position : Nat} {chars : List Char} {t : Located}
    (ht : t ∈ tokens position chars) {value : Json} (hvalue : t.token = .scalar value) :
    value.Scalar := by
  -- The cases follow the scanner: the end, a blank, a bad text, a text, a mark, a name or a number,
  -- and what is none of these.
  fun_induction tokens position chars with
  | case1 => cases ht
  | case2 _ _ _ _ ih => exact ih ht
  | case3 =>
      rw [List.mem_singleton.1 ht] at hvalue
      cases hvalue
  | case4 _ _ _ _ _ _ ih =>
      rcases List.mem_cons.1 ht with rfl | ht
      · cases hvalue
      · exact ih ht
  | case5 _ _ _ _ _ _ hmark ih =>
      rcases List.mem_cons.1 ht with rfl | ht
      · dsimp only at hvalue
        rw [hvalue] at hmark
        unfold mark? at hmark
        split_ifs at hmark <;> cases hmark
      · exact ih ht
  | case6 _ _ _ _ _ _ _ _ hread ih =>
      rcases List.mem_cons.1 ht with rfl | ht
      · rcases Option.or_eq_some_iff.1 hread with hname | ⟨-, hnumber⟩
        · exact scalar_of_scalarToken (atomic_of_readName? hname) hvalue
        · exact scalar_of_scalarToken (atomic_of_readNumber? hnumber) hvalue
      · exact ih ht
  | case7 =>
      rw [List.mem_singleton.1 ht] at hvalue
      cases hvalue

end Json

end SlotEvidence
