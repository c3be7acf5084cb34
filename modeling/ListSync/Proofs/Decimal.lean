import ListSync.Decimal
import Mathlib.Data.List.Induction

/-!
# Which texts are counts

A count is written as a numeral: digits, the first of which may be zeros. It is read behind a plus
sign as well (`Spells`). `count?_eq_some_iff` says that nothing else is read as a count.

Numerals grow at the end at which a reader adds the next digit to the number that it has
(`Numeral.concat`). So the grammar and the reader agree by induction on what is in front of the last
digit (`numeral_iff`).
-/

namespace ListSync.Decimal

/-- Digits and the number that they stand for. -/
inductive Numeral : List Char → Nat → Prop where
  | digit (d : Fin 10) : Numeral [Nat.digitChar d] d
  | concat {cs : List Char} {n : Nat} (front : Numeral cs n) (d : Fin 10) :
    Numeral (cs ++ [Nat.digitChar d]) (10 * n + d)

/-- The texts of a number: its numerals, alone or behind a plus sign. -/
inductive Spells : List Char → Nat → Prop where
  | bare {cs : List Char} {n : Nat} (numeral : Numeral cs n) : Spells cs n
  | plus {cs : List Char} {n : Nat} (numeral : Numeral cs n) : Spells ('+' :: cs) n

variable {cs : List Char} {n : Nat}

/-! ## Numerals -/

theorem isDigit_digitChar (d : Fin 10) : (Nat.digitChar d).isDigit := by
  rw [Nat.isDigit_digitChar, decide_eq_true d.isLt]

/-- There are no other digits than those of the numbers below ten. -/
theorem exists_digitChar_eq {c : Char} (digit : c.isDigit) : ∃ d : Fin 10, Nat.digitChar d = c := by
  have bounds : 48 ≤ c.toNat ∧ c.toNat ≤ 57 := by
    simpa [Char.isDigit, UInt32.le_iff_toNat_le] using digit
  refine ⟨⟨c.toNat - 48, by omega⟩, Char.toNat_inj.1 ?_⟩
  rw [Nat.toNat_digitChar_of_lt_ten (Fin.isLt _)]
  show 48 + (c.toNat - 48) = c.toNat
  omega

/-- One digit more makes the number ten times as great, and adds the digit to it. -/
theorem ofDigitChars_concat (cs : List Char) (d : Fin 10) :
    Nat.ofDigitChars 10 (cs ++ [Nat.digitChar d]) 0 = 10 * Nat.ofDigitChars 10 cs 0 + d := by
  rw [Nat.ofDigitChars_append, Nat.ofDigitChars_cons_digitChar_of_lt_ten d.isLt,
    Nat.ofDigitChars_nil]

theorem Numeral.isDigit (numeral : Numeral cs n) : ∀ c ∈ cs, c.isDigit := by
  induction numeral with
  | digit d =>
    intro c here
    exact List.mem_singleton.1 here ▸ isDigit_digitChar d
  | concat _ d ih =>
    intro c here
    rcases List.mem_append.1 here with here | here
    · exact ih c here
    · exact List.mem_singleton.1 here ▸ isDigit_digitChar d

theorem Numeral.ofDigitChars_eq (numeral : Numeral cs n) : Nat.ofDigitChars 10 cs 0 = n := by
  induction numeral with
  | digit d => simpa using ofDigitChars_concat [] d
  | concat _ d ih => rw [ofDigitChars_concat, ih]

/-- Digits, at least one, are a numeral of the number that they have as digits. -/
theorem numeral_of_isDigit (nonempty : cs ≠ []) (digits : ∀ c ∈ cs, c.isDigit) :
    Numeral cs (Nat.ofDigitChars 10 cs 0) := by
  induction cs using List.reverseRecOn with
  | nil => exact absurd rfl nonempty
  | append_singleton front c ih =>
    obtain ⟨d, rfl⟩ := exists_digitChar_eq (digits c (by simp))
    rw [ofDigitChars_concat]
    by_cases alone : front = []
    · subst alone
      simpa using Numeral.digit d
    · exact (ih alone fun c here => digits c (List.mem_append_left _ here)).concat d

/-- What is read as digits are the numerals. -/
theorem numeral_iff : Numeral cs n ↔ digits? cs = some n := by
  rw [digits?_eq_some_iff]
  constructor
  · intro numeral
    exact ⟨by cases numeral <;> simp, numeral.isDigit, numeral.ofDigitChars_eq⟩
  · rintro ⟨nonempty, digits, rfl⟩
    exact numeral_of_isDigit nonempty digits

/-! ## Texts of counts -/

/-- A text spells a number when it is a numeral but for a plus sign. -/
theorem spells_iff : Spells cs n ↔ Numeral (dropPlus cs) n := by
  constructor
  · rintro (numeral | numeral)
    · exact (dropPlus_of_isDigit numeral.isDigit).symm ▸ numeral
    · exact numeral
  · intro numeral
    unfold dropPlus at numeral
    split at numeral
    · exact .plus numeral
    · exact .bare numeral

/-- What is read as a count are the texts of the numbers that are not above the limit. -/
theorem count?_eq_some_iff {limit : Nat} : count? limit cs = some n ↔ Spells cs n ∧ n ≤ limit := by
  rw [count?, Option.filter_eq_some_iff, decide_eq_true_iff, spells_iff, numeral_iff]

end ListSync.Decimal
