/-!
# Decimal text

Counts and indices written in decimal: in page tokens, correlation tokens, settings and query
parameters. A reader takes ASCII digits behind an optional sign, leading zeros included, and nothing
that is out of range. `count?_render` says that what is written reads back.
-/

namespace ListSync.Decimal

/-- The digits of a count, without leading zeros. -/
def render (n : Nat) : List Char := Nat.toDigits 10 n

/-- The value of a non-empty run of digits. -/
def digits? (cs : List Char) : Option Nat :=
  if cs ≠ [] ∧ cs.all Char.isDigit then some (Nat.ofDigitChars 10 cs 0) else none

/-- The text without a leading plus sign. -/
def dropPlus : List Char → List Char
  | '+' :: cs => cs
  | cs => cs

/-- A count of at most `limit`. -/
def count? (limit : Nat) (cs : List Char) : Option Nat :=
  (digits? (dropPlus cs)).filter (· ≤ limit)

/-- A signed number between `-limit - 1` and `limit`. -/
def signed? (limit : Nat) : List Char → Option Int
  | '-' :: cs => ((digits? cs).filter (· ≤ limit + 1)).map fun n => -(n : Int)
  | cs => (count? limit cs).map fun n => (n : Int)

/-! ## Reading back -/

/-- Digits are read, all of them and at least one, as the number that they have as digits. -/
theorem digits?_eq_some_iff {cs : List Char} {n : Nat} :
    digits? cs = some n ↔ cs ≠ [] ∧ (∀ c ∈ cs, c.isDigit) ∧ Nat.ofDigitChars 10 cs 0 = n := by
  simp [digits?, and_assoc]

theorem isDigit_of_mem_render {c : Char} {n : Nat} (h : c ∈ render n) : c.isDigit :=
  Nat.isDigit_of_mem_toDigits (by omega) (by omega) h

theorem digits?_render (n : Nat) : digits? (render n) = some n :=
  digits?_eq_some_iff.2
    ⟨Nat.toDigits_ne_nil, fun _ => isDigit_of_mem_render, Nat.ofDigitChars_ten_toDigits⟩

/-- Digits have no plus sign in front of them. -/
theorem dropPlus_of_isDigit {cs : List Char} (digits : ∀ c ∈ cs, c.isDigit) : dropPlus cs = cs := by
  unfold dropPlus
  split
  · exact absurd (digits '+' List.mem_cons_self) (by decide)
  · rfl

/-- A count that is not above the limit reads back. -/
theorem count?_render {limit n : Nat} (h : n ≤ limit) : count? limit (render n) = some n := by
  rw [count?, dropPlus_of_isDigit fun _ => isDigit_of_mem_render, digits?_render]
  simp [h]

end ListSync.Decimal
