import ListSync.Answer
import ListSync.Edit.Basic
import ListSync.Json.Reader
import ListSync.Rejection

/-!
# Updates

A payload for a list that is registered already is a batch of edits or an answer to a fetch.
`Update.parse` tells them apart by their members.
-/

namespace ListSync

/-- A payload for a list that is registered already. -/
inductive Update where
  | batch (batch : Batch)
  | range (answer : RangeAnswer)
  | page (answer : PageAnswer)
deriving DecidableEq, Repr, Inhabited

namespace Update

/-- The list an update is for. -/
def listId : Update → ListId
  | batch b => b.listId
  | range a => a.listId
  | page a => a.listId

/-- The version an update carries. -/
def version : Update → Option Version
  | batch b => some b.version
  | range a => a.version
  | page a => a.version

/-- The kind of list an update is for. A batch fits either kind. -/
def kind? : Update → Option Kind
  | batch _ => none
  | range _ => some .index
  | page _ => some .token

/-- The body of an update as JSON. -/
def toJson : Update → Json
  | batch b => b.toJson
  | range a => a.toJson
  | page a => a.toJson

/-- Read an update for a list of the given kind. An object with edits is a batch, another one
with a correlation token an answer. -/
def parse (kind : Kind) (j : Json) : Except Rejection Update :=
  match j with
  | .obj _ =>
    if (j.member? "operations").isSome then return batch (← fitting (Batch.ofJson? j))
    else if (j.member? "correlationToken").isSome then
      match kind with
      | .index => return range (← fitting (RangeAnswer.ofJson? j))
      | .token => return page (← fitting (PageAnswer.ofJson? j))
    else .error (.malformed .unclassified)
  | _ => .error (.malformed .notAnObject)

/-- Read an update from text. -/
def read (kind : Kind) (text : String) : Except Rejection Update :=
  match Json.parse? text with
  | some j => parse kind j
  | none => .error (.malformed .notJson)

end Update

/-- An update that waits to be applied. -/
structure QueuedUpdate where
  kindName : String
  payload : Json
deriving DecidableEq, Repr, Inhabited

namespace QueuedUpdate

/-- A waiting update as JSON. -/
def toJson (u : QueuedUpdate) : Json :=
  .obj [("sourceType", .str u.kindName), ("payload", u.payload)]

/-- The fields of a waiting update. -/
def fields : List Field := [.fixed "sourceType", .fixed "payload"]

/-- What the text of a waiting update is read for. -/
def schema : Schema := .record fields

/-- A waiting update from JSON. -/
def ofJson? (j : Json) : Option QueuedUpdate := do
  let r ← j.record? fields
  return ⟨← r.required "sourceType" Json.string?, ← r.required "payload" some⟩

end QueuedUpdate

end ListSync
