import ListSync.Kind

/-!
# Answers to fetches

The payloads with which a producer answers: the items of a range, or those of a page. Each repeats
the correlation token of the request.
-/

namespace ListSync

/-- The answer to a request for a range. -/
structure RangeAnswer where
  listId : ListId
  token : String
  version : Option Version
  start : Int
  minimum : Option Int
  maximum : Option Int
  items : List Item
deriving DecidableEq, Repr, Inhabited

namespace RangeAnswer

/-- An answer as JSON; what is not known is left out. -/
def toJson (a : RangeAnswer) : Json :=
  .obj ([("listId", .str a.listId), ("correlationToken", .str a.token)]
    ++ Json.given "listVersion" (a.version.map Json.ofNat)
    ++ [("startIndex", Json.ofInt a.start)]
    ++ Json.given "minimumInclusiveIndex" (a.minimum.map Json.ofInt)
    ++ Json.given "maximumExclusiveIndex" (a.maximum.map Json.ofInt)
    ++ [("items", .arr a.items)])

/-- The fields of an answer. -/
def fields : List Field :=
  [.fixed "listId", .fixed "correlationToken", .droppable "listVersion", .fixed "startIndex",
    .droppable "minimumInclusiveIndex", .droppable "maximumExclusiveIndex", .fixed "items"]

/-- What the text of an answer is read for. -/
def schema : Schema := .record fields

/-- An answer from JSON. -/
def ofJson? (j : Json) : Option RangeAnswer := do
  let r ← j.record? fields
  return {
    listId := ← r.required "listId" Json.string?
    token := ← r.required "correlationToken" Json.string?
    version := ← r.optional "listVersion" Json.count?
    start := ← r.required "startIndex" Json.index?
    minimum := ← r.optional "minimumInclusiveIndex" Json.index?
    maximum := ← r.optional "maximumExclusiveIndex" Json.index?
    items := ← r.required "items" Json.items? }

end RangeAnswer

/-- The answer to a request for a page. -/
structure PageAnswer where
  listId : ListId
  token : String
  version : Option Version
  /-- The page that was asked for. -/
  page : String
  /-- The page beyond this one in the same direction. -/
  next : Option String
  items : List Item
deriving DecidableEq, Repr, Inhabited

namespace PageAnswer

/-- An answer as JSON; what is not known is left out. -/
def toJson (a : PageAnswer) : Json :=
  .obj ([("listId", .str a.listId), ("correlationToken", .str a.token)]
    ++ Json.given "listVersion" (a.version.map Json.ofNat)
    ++ [("pageToken", .str a.page)]
    ++ Json.given "nextPageToken" (a.next.map .str)
    ++ [("items", .arr a.items)])

/-- The fields of an answer. -/
def fields : List Field :=
  [.fixed "listId", .fixed "correlationToken", .droppable "listVersion", .fixed "pageToken",
    .droppable "nextPageToken", .fixed "items"]

/-- What the text of an answer is read for. -/
def schema : Schema := .record fields

/-- An answer from JSON. -/
def ofJson? (j : Json) : Option PageAnswer := do
  let r ← j.record? fields
  return {
    listId := ← r.required "listId" Json.string?
    token := ← r.required "correlationToken" Json.string?
    version := ← r.optional "listVersion" Json.count?
    page := ← r.required "pageToken" Json.string?
    next := ← r.optional "nextPageToken" Json.string?
    items := ← r.required "items" Json.items? }

end PageAnswer

/-- The answer to a fetch, for either kind of list. -/
inductive Answer where
  | range (answer : RangeAnswer)
  | page (answer : PageAnswer)
deriving DecidableEq, Repr, Inhabited

namespace Answer

/-- The kind of list an answer is for. -/
def kind : Answer → Kind
  | range _ => .index
  | page _ => .token

/-- An answer as JSON. -/
def toJson : Answer → Json
  | range a => a.toJson
  | page a => a.toJson

end Answer

end ListSync
