import ListSync.Json.Basic

/-!
# Number literals

`Number.ofLiteral?` reads the literal of a JSON number. A literal without fraction and exponent is
an integer when it fits 64 bits, signed if negative and unsigned otherwise. Every other literal is
a double, among them `-0`. Its significand is made of the leading digits as far as they fit 64 bits,
and `Double.ofDecimal?` scales the significand, so the value may differ from the nearest double in
the last place. A literal whose magnitude is beyond every double has no value.
-/

namespace ListSync.Number

/-- The parts of a number literal, each a run of digits. -/
structure Parts where
  negative : Bool
  whole : List Char
  fraction : Option (List Char)
  exponent : Option (Bool × List Char)

namespace Parts

/-- The parts of a well-formed literal. -/
def ofLiteral (literal : List Char) : Parts :=
  let (negative, body) := match literal with
    | '-' :: rest => (true, rest)
    | rest => (false, rest)
  let whole := body.takeWhile Char.isDigit
  let rest := body.dropWhile Char.isDigit
  let (fraction, rest) := match rest with
    | '.' :: rest => (some (rest.takeWhile Char.isDigit), rest.dropWhile Char.isDigit)
    | rest => (none, rest)
  let exponent := match rest with
    | _ :: '-' :: digits => some (true, digits)
    | _ :: '+' :: digits => some (false, digits)
    | _ :: digits => some (false, digits)
    | [] => none
  { negative, whole, fraction, exponent }

/-- Append digits to a significand as long as it fits 64 bits, and say how many are left. -/
def gather (significand : Nat) : List Char → Nat × Nat
  | [] => (significand, 0)
  | c :: rest =>
    let longer := 10 * significand + (c.toNat - '0'.toNat)
    if longer < 0x10000000000000000 then gather longer rest else (significand, rest.length + 1)

/-- The exponent that is written. -/
def written (p : Parts) : Int :=
  match p.exponent with
  | some (true, digits) => -(Nat.ofDigitChars 10 digits 0 : Int)
  | some (false, digits) => Nat.ofDigitChars 10 digits 0
  | none => 0

/-- The significand, and the power of ten that it is multiplied by. A digit that does not fit counts
in the whole part and is dropped in the fraction. -/
def decimal (p : Parts) : Nat × Int :=
  let fraction := p.fraction.getD []
  let (whole, more) := gather 0 p.whole
  let (significand, dropped) := gather whole fraction
  (significand, more - (fraction.length - dropped : Int) + p.written)

/-- The integer a literal stands for, if it has neither fraction nor exponent and fits 64 bits. -/
def integer? (p : Parts) : Option Int :=
  if p.fraction.isSome || p.exponent.isSome then none
  else
    let magnitude := Nat.ofDigitChars 10 p.whole 0
    if p.negative then
      if 0 < magnitude ∧ magnitude ≤ 0x8000000000000000 then some (-(magnitude : Int)) else none
    else if magnitude < 0x10000000000000000 then some magnitude
    else none

end Parts

/-- The number that a well-formed literal stands for. -/
def ofLiteral? (literal : List Char) : Option Number :=
  let parts := Parts.ofLiteral literal
  match parts.integer? with
  | some i => some (.int i)
  | none =>
    let (significand, exponent) := parts.decimal
    (Double.ofDecimal? parts.negative significand exponent).map .real

/-! ## Writing -/

/-- Digits without zeros at their end. -/
def dropZeros (digits : List Char) : List Char := (digits.reverse.dropWhile (· = '0')).reverse

/-- The text of a decimal of which the point stands in front of the first digit and is moved by
`point`. It is positional from `1e-5` to below `1e16`, and has a fraction or an exponent. -/
def renderDecimal (digits : List Char) (point : Int) : List Char :=
  let zeros (n : Nat) : List Char := List.replicate n '0'
  if 0 < point ∧ point ≤ 16 then
    let whole := digits.take point.toNat
    let fraction := digits.drop point.toNat
    whole ++ zeros (point.toNat - whole.length) ++
      '.' :: (if fraction.isEmpty then ['0'] else fraction)
  else if -5 < point ∧ point ≤ 0 then '0' :: '.' :: zeros (-point).toNat ++ digits
  else
    digits.take 1 ++ (if digits.length ≤ 1 then [] else '.' :: digits.drop 1) ++
      'e' :: (toString (point - 1)).toList

/-- The text of a double, of the fewest digits that tell it from all others. -/
def renderDouble (d : Double) : String :=
  let magnitude :=
    if d.units = 0 then ['0', '.', '0']
    else
      let (value, exponent) := Double.digits d.units
      let digits := Nat.toDigits 10 value
      renderDecimal (dropZeros digits) (digits.length + exponent)
  String.ofList (if d.negative then '-' :: magnitude else magnitude)

/-- The text of a number. -/
def render : Number → String
  | .int i => toString i
  | .real d => renderDouble d

end ListSync.Number
