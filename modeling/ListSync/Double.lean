/-!
# Doubles

Finite double precision numbers. Every one of them is a whole number of units, a unit being the
least positive one, so a magnitude is a natural number, and rounding is a division of natural
numbers. `Double.ofDecimal?` is the value of a significand times a power of ten, rounded after each
of its steps, and `Double.digits` is the shortest decimal that reads back.
-/

namespace ListSync

/-- A finite double: its sign, and how many units it is away from zero. -/
structure Double where
  negative : Bool
  units : Nat
deriving DecidableEq, Repr, Inhabited

namespace Double

/-! ## Rounding -/

/-- How many units make one. -/
def one : Nat := Nat.pow 2 1074

/-- The least magnitude, in units, that no double reaches. -/
def limit : Nat := Nat.pow 2 1024 * one

/-- A quotient rounded to the nearest integer. A half goes to the even neighbour. -/
def divNearest (n d : Nat) : Nat :=
  if 2 * (n % d) < d ∨ (2 * (n % d) = d ∧ n / d % 2 = 0) then n / d else n / d + 1

/-- The nearest magnitude to a quotient of units. A magnitude has 53 binary digits at most. -/
def nearest (n d : Nat) : Nat :=
  let step := Nat.pow 2 ((n / d).log2 - 52)
  divNearest n (d * step) * step

/-- The nearest magnitude to a natural number. -/
def ofNat (n : Nat) : Nat := nearest (n * one) 1

/-- The product of two magnitudes, rounded. -/
def mul (a b : Nat) : Nat := nearest (a * b) one

/-- The quotient of two magnitudes, rounded. -/
def div (a b : Nat) : Nat := nearest (a * one) b

/-- A rounded quotient is at most one above the whole part of the exact one. -/
theorem divNearest_le (n d : Nat) : divNearest n d ≤ n / d + 1 := by
  unfold divNearest; split <;> omega

/-- A rounded quotient is not below the whole part of the exact one. -/
theorem le_divNearest (n d : Nat) : n / d ≤ divNearest n d := by
  unfold divNearest; split <;> omega

/-- A number of units that is rounded already stays as it is. -/
theorem nearest_of_lt {n : Nat} (h : n < Nat.pow 2 53) : nearest n 1 = n := by
  have small : n.log2 - 52 = 0 := by
    rcases Nat.eq_zero_or_pos n with rfl | pos
    · rfl
    · have := (Nat.log2_lt (by omega)).2 h
      omega
  simp [nearest, divNearest, small, Nat.mod_one]

/-! ## Decimals -/

/-- The greatest power of ten that a scaling by a single step reaches. -/
def maxPower : Nat := 308

/-- A magnitude times a power of ten, unless that is beyond every double. A step multiplies or
divides by a rounded power of ten and rounds; what two steps do not reach is zero. -/
def scale? (a : Nat) (exponent : Int) : Option Nat :=
  let power (n : Nat) : Nat := ofNat (Nat.pow 10 n)
  if a = 0 then some 0
  else if exponent > maxPower then none
  else if 0 ≤ exponent then
    let product := mul a (power exponent.toNat)
    if product < limit then some product else none
  else
    let down := (-exponent).toNat
    if down ≤ maxPower then some (div a (power down))
    else if down ≤ 2 * maxPower then some (div (div a (power maxPower)) (power (down - maxPower)))
    else some 0

/-- The double that a significand times a power of ten stands for, if it is finite. -/
def ofDecimal? (negative : Bool) (significand : Nat) (exponent : Int) : Option Double :=
  (scale? (ofNat significand) exponent).map fun units => { negative, units }

/-! ## Shortest digits -/

/-- The nearest magnitude to a natural number times a power of ten, rounded only once. -/
def ofScaled (n : Nat) (exponent : Int) : Nat :=
  if 0 ≤ exponent then nearest (n * Nat.pow 10 exponent.toNat * one) 1
  else nearest (n * one) (Nat.pow 10 (-exponent).toNat)

/-- How many decimal places a unit has, and so no magnitude has more. -/
def places : Nat := 1074

/-- All digits of a magnitude, the last of them in the last decimal place. -/
def allDigits (units : Nat) : List Char := Nat.toDigits 10 (units * Nat.pow 5 places)

/-- The decimals of the given number of digits next to a magnitude with the given digits, of which
the point stands in front of the first and is moved by `point`. The nearer one comes first, and of
two equally near the even one. -/
def neighbours (digits : List Char) (point : Int) (count : Nat) : List (Nat × Int) :=
  let below := Nat.ofDigitChars 10 (digits.take count) 0
  let exponent := point - count
  let isNearBelow := match digits.drop count with
    | [] => true
    | c :: rest => c < '5' || (c = '5' && rest.all (· = '0') && below % 2 = 0)
  if isNearBelow then [(below, exponent), (below + 1, exponent)]
  else [(below + 1, exponent), (below, exponent)]

/-- The shortest decimal, as a number times a power of ten, that is nearer to the given number of
units than to any other magnitude. -/
def digits (units : Nat) : Nat × Int :=
  let digits := allDigits units
  let point : Int := digits.length - (places : Int)
  let candidates := (List.range 17).flatMap fun n => neighbours digits point (n + 1)
  (candidates.find? fun c => ofScaled c.1 c.2 = units).getD (0, 0)

end Double

end ListSync
