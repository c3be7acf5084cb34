import ListSync.Decimal
import ListSync.Json.Lexeme
import ListSync.Producer.FullList

/-!
# Request targets

The parts of a request target: the segments of its path, with escapes, and the parameters of its
query. A target that names a host is looked at from its path on. An escape is a percent sign and two
hexadecimal digits; anything else stands for itself.
-/

namespace ListSync.Producer.Uri

/-! ## Escapes -/

/-- The bytes of some characters. -/
def utf8 (cs : List Char) : List UInt8 := (String.ofList cs).toUTF8.toList

/-- The bytes that a text with escapes stands for. -/
def unescape : List Char → List UInt8
  | [] => []
  | ['%'] => utf8 ['%']
  | ['%', a] => utf8 ['%', a]
  | '%' :: a :: b :: rest =>
    match Json.hexDigit? a, Json.hexDigit? b with
    | some high, some low => UInt8.ofNat (16 * high + low) :: unescape rest
    | _, _ => utf8 ['%'] ++ unescape (a :: b :: rest)
  | c :: rest => utf8 [c] ++ unescape rest

/-- The text that some bytes encode. -/
def text? (bytes : List UInt8) : Option String := String.fromUTF8? ⟨bytes.toArray⟩

/-! ## Paths and queries -/

/-- A text cut at each separator. -/
def cut (separator : Char) : List Char → List (List Char)
  | [] => [[]]
  | c :: rest =>
    if c = separator then [] :: cut separator rest
    else match cut separator rest with
      | [] => [[c]]
      | first :: others => (c :: first) :: others

/-- Whether a character may stand in the scheme of a target. -/
def isSchemeChar (c : Char) : Bool := c.isAlphanum || "+-.~".toList.contains c

/-- A target from its path on. An empty path behind a host is a single slash. A target that is only
a host has no path. -/
def fromPath? (target : List Char) : Option (List Char) :=
  if target.head? = some '/' then some target
  else match target.dropWhile isSchemeChar with
    | ':' :: '/' :: '/' :: rest =>
      let behind := rest.dropWhile fun c => c ≠ '/' && c ≠ '?' && c ≠ '#'
      some (if behind.head? = some '/' then behind else '/' :: behind)
    | _ => none

/-- The path and the query of a target. What follows a hash sign belongs to neither. -/
def split (target : List Char) : List Char × List Char :=
  let whole := target.takeWhile (· ≠ '#')
  (whole.takeWhile (· ≠ '?'), (whole.dropWhile (· ≠ '?')).drop 1)

/-- The segments of a path behind its leading slash. -/
def segments (path : List Char) : Option (List String) :=
  match path with
  | '/' :: rest => some ((cut '/' rest).map String.ofList)
  | _ => none

/-- One side of a parameter. A plus sign stands for a space. -/
def parameterText (cs : List Char) : Option (List Char) :=
  (text? (unescape (cs.map fun c => if c = '+' then ' ' else c))).map String.toList

/-- The parameters of a query, with the values of those that are text. -/
def parameters (query : List Char) : List (Option (List Char) × Option (List Char)) :=
  ((cut '&' query).filter (!·.isEmpty)).map fun piece =>
    (parameterText (piece.takeWhile (· ≠ '=')),
      parameterText ((piece.dropWhile (· ≠ '=')).drop 1))

/-- The value of a parameter that is given at most once. -/
def parameter? {α : Type} (ps : List (Option (List Char) × Option (List Char))) (name : String)
    (read : List Char → Option α) : Option (Option α) :=
  match ps.filter (·.1 = some name.toList) with
  | [] => some none
  | [(_, value)] => (value.bind read).map some
  | _ => none

/-- Where a client wants to start, from the parameters of a query. -/
def query? (query : List Char) : Option Query := do
  let ps := parameters query
  return {
    start := ← parameter? ps "startIndex" (Decimal.signed? Index.greatest.toNat)
    count := ← parameter? ps "count" (Decimal.count? maxCount)
    page := ← parameter? ps "page" (Decimal.count? maxCount) }

end ListSync.Producer.Uri
