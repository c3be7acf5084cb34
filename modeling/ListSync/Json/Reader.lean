import ListSync.Json.Lexeme
import ListSync.Json.Schema

/-!
# Reading JSON text

A text is read by a schema: its lexemes are folded over a stack of the arrays and objects that are
still open, each with the schema it is read by. The first fault in the order of the text decides
whether the text is broken or of another shape. At most `maxDepth` arrays and objects may be open at
once, those that are skipped apart.

`Schema.decode` reads a text by a schema and decodes the value. `Json.read?` keeps every member of
an object as written, `Json.parse?` gives the settled value.
-/

namespace ListSync

/-- Why a text gives no value. -/
inductive Fault where
  /-- The text is not JSON. -/
  | broken
  /-- The text has another shape, as far as it has been read. -/
  | unfit
deriving DecidableEq, Repr

namespace Json

/-- The greatest number of arrays and objects that may be open at once. -/
def maxDepth : Nat := 127

/-- An array or object that is still open, its contents last first. -/
inductive Frame where
  | items (schema : Schema) (done : List Json)
  | members (schema : Schema) (done : List (String × Json))
  /-- An object of which the named member comes next. -/
  | member (schema : Schema) (done : List (String × Json)) (name : String)

/-- What may come next. -/
inductive Expect where
  | value (schema : Schema)
  /-- An item, or the end of the array that has just been opened. -/
  | firstItem
  | name
  /-- A name, or the end of the object that has just been opened. -/
  | firstName
  | colon
  /-- The value just read goes on with a comma, the end of what holds it, or the end of text. -/
  | after (value : Json)

/-- A reader between two lexemes. -/
structure ReadState where
  opened : List Frame
  expect : Expect

namespace ReadState

/-- Start an array or object, if the nesting allows it. -/
def enter (s : ReadState) (schema : Schema) (frame : Frame) (expect : Expect) :
    Except Fault ReadState :=
  if schema.isSkipped || s.opened.length < maxDepth then
    .ok { opened := frame :: s.opened, expect }
  else .error .broken

/-- Read a string or scalar. -/
def leaf (s : ReadState) (schema : Schema) (value : Json) : Except Fault ReadState :=
  if schema.takesScalar value then .ok { s with expect := .after value } else .error .unfit

/-- Start reading a value with the given lexeme. -/
def beginValue (s : ReadState) (schema : Schema) : Lexeme → Except Fault ReadState
  | .scalar v => s.leaf schema v
  | .str text => s.leaf schema (.str text)
  | .unpaired | .tooLarge => if schema.isSkipped then s.leaf schema .null else .error .broken
  | .openArr =>
    if schema.takesArray then s.enter schema (.items schema []) .firstItem else .error .unfit
  | .openObj =>
    if schema.takesObject then s.enter schema (.members schema []) .firstName else .error .unfit
  | _ => .error .broken

/-- Expect one more item of an array. -/
def nextItem (schema : Schema) (done : List Json) (outer : List Frame) : Except Fault ReadState :=
  match schema.item? done with
  | some item => .ok { opened := .items schema done :: outer, expect := .value item }
  | none => .error .broken

/-- Go on after the end of an array or object. -/
def close (schema : Schema) (value : Json) (outer : List Frame) : Except Fault ReadState :=
  if schema.keeps value then .ok { opened := outer, expect := .after value } else .error .unfit

/-- The members of an object with one more that has been read. What is skipped leaves no member. -/
def addMember (schema : Schema) (name : String) (value : Json) (done : List (String × Json)) :
    List (String × Json) :=
  if (schema.member name).isSkipped then done else (name, value) :: done

/-- Go on after a value inside the given array or object. -/
def continueAfter (v : Json) (frame : Frame) (outer : List Frame) : Lexeme → Except Fault ReadState
  | .comma => match frame with
    | .items schema done => nextItem schema (v :: done) outer
    | .member schema done name =>
      .ok { opened := .members schema (addMember schema name v done) :: outer, expect := .name }
    | .members .. => .error .broken
  | .closeArr => match frame with
    | .items schema done => close schema (.arr (v :: done).reverse) outer
    | _ => .error .broken
  | .closeObj => match frame with
    | .member schema done name => close schema (.obj (addMember schema name v done).reverse) outer
    | _ => .error .broken
  | _ => .error .broken

/-- Read the name of a member. -/
def readName (schema : Schema) (done : List (String × Json)) (outer : List Frame) (name : String) :
    Except Fault ReadState :=
  if schema.isSingle name && done.any (·.1 = name) then .error .unfit
  else .ok { opened := .member schema done name :: outer, expect := .colon }

/-- Read a lexeme where a name is expected. -/
def beginMember (s : ReadState) (lexeme : Lexeme) : Except Fault ReadState :=
  match s.opened, lexeme with
  | .members schema done :: outer, .str name => readName schema done outer name
  | .members schema done :: outer, .unpaired =>
    if schema.isSkipped then readName schema done outer "" else .error .broken
  | _, _ => .error .broken

/-- Read one more lexeme. -/
def step (s : ReadState) (lexeme : Lexeme) : Except Fault ReadState :=
  match s.expect with
  | .value schema => s.beginValue schema lexeme
  | .firstItem => match s.opened, lexeme with
    | .items schema done :: outer, .closeArr => close schema (.arr done) outer
    | .items schema done :: _, l => match schema.item? done with
      | some item => s.beginValue item l
      | none => .error .broken
    | _, _ => .error .broken
  | .firstName => match s.opened, lexeme with
    | .members schema _ :: outer, .closeObj => close schema (.obj []) outer
    | _, l => s.beginMember l
  | .name => s.beginMember lexeme
  | .colon => match s.opened, lexeme with
    | .member schema _ name :: _, .colon => .ok { s with expect := .value (schema.member name) }
    | _, _ => .error .broken
  | .after v => match s.opened with
    | frame :: outer => continueAfter v frame outer lexeme
    | [] => .error .broken

/-- The value read, when nothing is open any more. -/
def value? (s : ReadState) : Option Json :=
  match s.opened, s.expect with
  | [], .after v => some v
  | _, _ => none

/-- Read lexemes until nothing is open any more: the value, and the lexemes behind it. -/
def run (s : ReadState) (lexemes : List Lexeme) : Except Fault (Json × List Lexeme) :=
  match s.value?, lexemes with
  | some v, rest => .ok (v, rest)
  | none, [] => .error .broken
  | none, l :: rest => match s.step l with
    | .ok next => next.run rest
    | .error fault => .error fault

end ReadState

end Json

/-- Read a text by a schema and decode the value. Text behind the value is seen only after that. -/
def Schema.decode {α : Type} (schema : Schema) (decode : Json → Option α) (text : String) :
    Except Fault α :=
  match Json.ReadState.run { opened := [], expect := .value schema } (Json.lexemes text) with
  | .error fault => .error fault
  | .ok (value, rest) => match decode value with
    | none => .error .unfit
    | some a => if rest.isEmpty then .ok a else .error .broken

/-- Read a text by a schema and decode the value, if there is no fault. -/
def Schema.decode? {α : Type} (schema : Schema) (decode : Json → Option α) (text : String) :
    Option α :=
  (schema.decode decode text).toOption

namespace Json

/-- Read a text as JSON, keeping the members of objects as written. -/
def read? (text : String) : Option Json := Schema.whole.decode? some text

/-- Read a text as a plain JSON value. -/
def parse? (text : String) : Option Json := (read? text).map settle

end Json

end ListSync
