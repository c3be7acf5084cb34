/-!
# Media types

Which content types announce JSON. A media type is two tokens with a slash between them, and may
have parameters behind a semicolon. Parameters do not matter, but a text that is not a media type to
its end announces nothing.
-/

namespace ListSync.Producer.MediaType

/-- Whether a character may stand in a token. -/
def isTokenChar (c : Char) : Bool := c.isAlphanum || "!#$%&'*+-.^_`|~".toList.contains c

/-- What has been read last of the parameters. -/
inductive Part where
  /-- The semicolon before a parameter, or blanks behind it. -/
  | start
  | name
  /-- The sign between a name and a value. -/
  | equals
  | value
  /-- The quote before a value, which then has at least one character. -/
  | openQuote
  | quoted
  /-- The quote behind a value, or blanks behind that. -/
  | closeQuote
deriving DecidableEq, Repr

namespace Part

/-- Read one more character. -/
def step (part : Part) (c : Char) : Option Part :=
  let isQuotable := 0x20 ≤ c.toNat && c.toNat ≠ 0x7F
  match part with
  | start => if c = ' ' then some start else if isTokenChar c then some name else none
  | name => if c = '=' then some equals else if isTokenChar c then some name else none
  | equals => if c = '"' then some openQuote else if isTokenChar c then some value else none
  | value => if c = ';' then some start else if isTokenChar c then some value else none
  | openQuote => if isQuotable then some quoted else none
  | quoted => if c = '"' then some closeQuote else if isQuotable then some quoted else none
  | closeQuote => if c = ';' then some start else if c = ' ' then some closeQuote else none

/-- Whether the parameters may end here. The last of them may have an empty value. -/
def mayEnd : Part → Bool
  | start | equals | value | closeQuote => true
  | name | openQuote | quoted => false

end Part

/-- Whether a text is made of parameters. -/
def areParameters (text : List Char) : Bool := (text.foldlM Part.step .start).any Part.mayEnd

/-- A media type without its parameters. -/
structure Essence where
  main : List Char
  sub : List Char
deriving DecidableEq, Repr

/-- The media type that a text names. -/
def parse? (text : List Char) : Option Essence :=
  let main := text.takeWhile isTokenChar
  match text.dropWhile isTokenChar with
  | '/' :: rest =>
    let sub := rest.takeWhile isTokenChar
    let isWhole := match rest.dropWhile isTokenChar with
      | [] => true
      | ';' :: parameters => !sub.isEmpty && areParameters parameters
      | _ => false
    if !main.isEmpty && isWhole then some { main, sub } else none
  | _ => none

/-- The parts of a subtype before and behind its last plus sign. A plus sign in front of a subtype
belongs to it. -/
def splitSuffix (sub : List Char) : List Char × Option (List Char) :=
  match sub.reverse.dropWhile (· ≠ '+') with
  | [] | ['+'] => (sub, none)
  | _ :: before => (before.reverse, some (sub.reverse.takeWhile (· ≠ '+')).reverse)

/-- Whether a content type announces JSON: an application type of which the subtype is `json`, but
for a suffix, or has that suffix. Case does not matter. -/
def isJson (text : String) : Bool :=
  match parse? text.toLower.toList with
  | some essence =>
    let (sub, suffix) := splitSuffix essence.sub
    essence.main = "application".toList && (sub = "json".toList || suffix = some "json".toList)
  | none => false

end ListSync.Producer.MediaType
