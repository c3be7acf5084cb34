import ListSync.Json.Number

/-!
# Writing JSON text

`Json.render` writes a value without blanks. In strings the quote, the backslash and control
characters are escaped, all else stands for itself.
-/

namespace ListSync.Json

/-- A control character as a four digit escape. -/
def controlEscape (c : Char) : List Char :=
  let digit (n : Nat) : Char := Char.ofNat (if n < 10 then '0'.toNat + n else 'a'.toNat + (n - 10))
  ['\\', 'u', '0', '0', digit (c.toNat / 16), digit (c.toNat % 16)]

/-- How a character is written inside a string. -/
def renderChar (c : Char) : List Char :=
  if c = '"' then ['\\', '"']
  else if c = '\\' then ['\\', '\\']
  else if c = '\n' then ['\\', 'n']
  else if c = '\r' then ['\\', 'r']
  else if c = '\t' then ['\\', 't']
  else if c.toNat < 0x20 then controlEscape c
  else [c]

/-- A string in quotes. -/
def renderString (s : String) : String :=
  String.ofList ('"' :: s.toList.flatMap renderChar ++ ['"'])

mutual

/-- A text with the text of a value behind it. -/
def write (text : String) : Json → String
  | .null => text ++ "null"
  | .bool b => text ++ (if b then "true" else "false")
  | .num n => text ++ n.render
  | .str s => text ++ renderString s
  | .arr [] => text ++ "[]"
  | .arr (x :: xs) => (writeItems (write (text.push '[') x) xs).push ']'
  | .obj [] => text ++ "\x7b\x7d"
  | .obj ((n, v) :: ms) =>
    (writeMembers (write (text ++ "\x7b" ++ renderString n ++ ":") v) ms).push '\x7d'

/-- A text with items behind it, each behind a comma. -/
def writeItems (text : String) : List Json → String
  | [] => text
  | x :: xs => writeItems (write (text.push ',') x) xs

/-- A text with members behind it, each behind a comma. -/
def writeMembers (text : String) : List (String × Json) → String
  | [] => text
  | (n, v) :: ms => writeMembers (write (text ++ "," ++ renderString n ++ ":") v) ms

end

/-- The text of a value. -/
def render (j : Json) : String := j.write ""

end ListSync.Json
