import ListSync.Json.Number

/-!
# Lexemes of JSON text

`Json.lexemes` cuts a text into punctuation, strings and scalars, one character at a time over a
small set of scanning states. The grammar is strict: blanks are space, tab, line feed and carriage
return; a string holds no control character; a number has no leading zero. The lexemes end with
`Lexeme.junk` where the text stops being made of lexemes.

Two lexemes are well-formed but stand for nothing: a number beyond every double, and a string with
half of a surrogate pair in it. They matter only where a value is skipped.
-/

namespace ListSync.Json

/-- The smallest meaningful piece of JSON text. -/
inductive Lexeme where
  | openArr
  | closeArr
  | openObj
  | closeObj
  | colon
  | comma
  | str (text : String)
  | scalar (value : Json)
  /-- A string with a surrogate that is not half of a pair. -/
  | unpaired
  /-- A number whose magnitude is beyond every double. -/
  | tooLarge
  /-- Text that no lexeme starts with. Nothing after it is cut. -/
  | junk
deriving DecidableEq, Repr

/-- The part of a number that has been read last. -/
inductive NumberPart where
  | sign
  | zero
  | whole
  | point
  | fraction
  | exponent
  | exponentSign
  | exponentDigits
deriving DecidableEq, Repr

namespace NumberPart

/-- The part that a character continues with, if the number goes on. -/
def next? (part : NumberPart) (c : Char) : Option NumberPart :=
  let isMark := c = 'e' || c = 'E'
  match part with
  | sign => if c = '0' then some zero else if c.isDigit then some whole else none
  | zero => if c = '.' then some point else if isMark then some exponent else none
  | whole =>
    if c.isDigit then some whole else if c = '.' then some point
    else if isMark then some exponent else none
  | point => if c.isDigit then some fraction else none
  | fraction => if c.isDigit then some fraction else if isMark then some exponent else none
  | exponent =>
    if c = '+' || c = '-' then some exponentSign
    else if c.isDigit then some exponentDigits else none
  | exponentSign | exponentDigits => if c.isDigit then some exponentDigits else none

/-- Whether a number may end with this part. -/
def mayEnd : NumberPart → Bool
  | zero | whole | fraction | exponentDigits => true
  | sign | point | exponent | exponentSign => false

end NumberPart

/-- What the scanner is in the middle of. Characters read so far are kept last first; those of a
string with an unpaired surrogate are not kept. -/
inductive Scan where
  /-- Between two lexemes. -/
  | between
  /-- Inside the name of a value, of which some characters are left. -/
  | name (left : List Char) (value : Json)
  /-- Inside a number. -/
  | number (part : NumberPart) (read : List Char)
  /-- Inside a string. -/
  | text (read : Option (List Char))
  /-- After a backslash in a string. -/
  | escape (read : Option (List Char))
  /-- Inside a four digit escape, after the given high surrogate if there is one. -/
  | hex (read : Option (List Char)) (high : Option Nat) (left : Nat) (value : Nat)
  /-- After a high surrogate, before the backslash of the low one. -/
  | pair (read : Option (List Char)) (high : Nat)
  /-- After a high surrogate and a backslash. -/
  | pairEscape (read : Option (List Char)) (high : Nat)
  /-- Behind the end of the lexemes. -/
  | stuck

/-- The end of the lexemes. -/
def Scan.fail : Scan × List Lexeme := (.stuck, [.junk])

/-- The lexeme of a number, whose characters are given last first. -/
def numberLexeme (read : List Char) : Lexeme :=
  match Number.ofLiteral? read.reverse with
  | some n => .scalar (.num n)
  | none => .tooLarge

/-- The lexeme of a string, whose characters are given last first. -/
def stringLexeme : Option (List Char) → Lexeme
  | some read => .str (String.ofList read.reverse)
  | none => .unpaired

/-- The scanner between two lexemes. -/
def scanBetween (c : Char) : Scan × List Lexeme :=
  if c = ' ' || c = '\t' || c = '\n' || c = '\r' then (.between, [])
  else if c = '[' then (.between, [.openArr])
  else if c = ']' then (.between, [.closeArr])
  else if c = '\x7b' then (.between, [.openObj])
  else if c = '\x7d' then (.between, [.closeObj])
  else if c = ':' then (.between, [.colon])
  else if c = ',' then (.between, [.comma])
  else if c = '"' then (.text (some []), [])
  else if c = 'n' then (.name ['u', 'l', 'l'] .null, [])
  else if c = 't' then (.name ['r', 'u', 'e'] (.bool true), [])
  else if c = 'f' then (.name ['a', 'l', 's', 'e'] (.bool false), [])
  else if c = '-' then (.number .sign [c], [])
  else match NumberPart.next? .sign c with
    | some part => (.number part [c], [])
    | none => Scan.fail

/-- The scanner inside a number. -/
def scanNumber (part : NumberPart) (read : List Char) (c : Char) : Scan × List Lexeme :=
  match part.next? c with
  | some part => (.number part (c :: read), [])
  | none =>
    if !part.mayEnd || c.isDigit then Scan.fail
    else
      let (next, found) := scanBetween c
      (next, numberLexeme read :: found)

/-- The scanner inside a string. -/
def scanText (read : Option (List Char)) (c : Char) : Scan × List Lexeme :=
  if c = '"' then (.between, [stringLexeme read])
  else if c = '\\' then (.escape read, [])
  else if c.toNat < 0x20 then Scan.fail
  else (.text (read.map (c :: ·)), [])

/-- The character that a one letter escape stands for. -/
def escapedChar? (c : Char) : Option Char :=
  if c = '"' || c = '\\' || c = '/' then some c
  else if c = 'b' then some '\x08'
  else if c = 'f' then some '\x0c'
  else if c = 'n' then some '\n'
  else if c = 'r' then some '\r'
  else if c = 't' then some '\t'
  else none

/-- The scanner after a backslash. -/
def scanEscape (read : Option (List Char)) (c : Char) : Scan × List Lexeme :=
  if c = 'u' then (.hex read none 4 0, [])
  else match escapedChar? c with
    | some e => (.text (read.map (e :: ·)), [])
    | none => Scan.fail

/-- The value of a hexadecimal digit. -/
def hexDigit? (c : Char) : Option Nat :=
  if '0' ≤ c ∧ c ≤ '9' then some (c.toNat - '0'.toNat)
  else if 'a' ≤ c ∧ c ≤ 'f' then some (c.toNat - 'a'.toNat + 10)
  else if 'A' ≤ c ∧ c ≤ 'F' then some (c.toNat - 'A'.toNat + 10)
  else none

/-- Go on after all four digits of an escape. -/
def afterHex (read : Option (List Char)) (high : Option Nat) (value : Nat) : Scan :=
  let isHigh := 0xD800 ≤ value ∧ value < 0xDC00
  let isLow := 0xDC00 ≤ value ∧ value < 0xE000
  match high with
  | none =>
    if isHigh then .pair read value
    else if isLow then .text none
    else .text (read.map (Char.ofNat value :: ·))
  | some h =>
    if isLow then
      .text (read.map (Char.ofNat (0x10000 + (h - 0xD800) * 0x400 + (value - 0xDC00)) :: ·))
    else .text none

/-- Read one more character. -/
def Scan.step : Scan → Char → Scan × List Lexeme
  | .between, c => scanBetween c
  | .name [] value, c =>
    let (next, found) := scanBetween c
    (next, .scalar value :: found)
  | .name (expected :: left) value, c =>
    if c = expected then (.name left value, []) else Scan.fail
  | .number part read, c => scanNumber part read c
  | .text read, c => scanText read c
  | .escape read, c => scanEscape read c
  | .hex read high left value, c =>
    match hexDigit? c with
    | none => Scan.fail
    | some digit =>
      if left = 1 then (afterHex read high (16 * value + digit), [])
      else (.hex read high (left - 1) (16 * value + digit), [])
  | .pair read high, c => if c = '\\' then (.pairEscape read high, []) else scanText none c
  | .pairEscape read high, c =>
    if c = 'u' then (.hex read (some high) 4 0, []) else scanEscape none c
  | .stuck, _ => (.stuck, [])

/-- The lexemes that are found when the text ends here. -/
def Scan.finish : Scan → List Lexeme
  | .between | .stuck => []
  | .name [] value => [.scalar value]
  | .number part read => if part.mayEnd then [numberLexeme read] else [.junk]
  | _ => [.junk]

/-- Scan the rest of a text from the given state, after lexemes that are given last first. -/
def scanFrom (state : Scan) (found : List Lexeme) : List Char → List Lexeme
  | [] => (state.finish.reverse ++ found).reverse
  | c :: rest =>
    let (next, more) := state.step c
    scanFrom next (more.reverse ++ found) rest

/-- The lexemes of a text. -/
def lexemes (text : String) : List Lexeme := scanFrom .between [] text.toList

end ListSync.Json
