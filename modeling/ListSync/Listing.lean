import ListSync.Rejection

/-!
# Listings

The payload with which a producer makes a list known: its first items, where they are in the whole
list, and what is known about the rest. `Listing.parse` reads one for a list of a known kind, and
refuses a tag that names another kind.
-/

namespace ListSync

/-- The first items of an index list. -/
structure IndexListing where
  listId : ListId
  version : Option Version
  start : Int
  minimum : Option Int
  maximum : Option Int
  items : List Item
deriving DecidableEq, Repr, Inhabited

namespace IndexListing

/-- The members of a listing; what is not known is left out. -/
def members (p : IndexListing) : List (String × Json) :=
  [("listId", .str p.listId)] ++ Json.given "listVersion" (p.version.map Json.ofNat)
    ++ [("startIndex", Json.ofInt p.start)]
    ++ Json.given "minimumInclusiveIndex" (p.minimum.map Json.ofInt)
    ++ Json.given "maximumExclusiveIndex" (p.maximum.map Json.ofInt)
    ++ [("items", .arr p.items)]

/-- A listing as JSON. -/
def toJson (p : IndexListing) : Json := .obj p.members

/-- The fields of a listing. -/
def fields : List Field :=
  [.fixed "listId", .droppable "listVersion", .fixed "startIndex",
    .droppable "minimumInclusiveIndex", .droppable "maximumExclusiveIndex", .fixed "items"]

/-- What the text of a listing is read for. -/
def schema : Schema := .record fields

/-- A listing from JSON. -/
def ofJson? (j : Json) : Option IndexListing := do
  let r ← j.record? fields
  return {
    listId := ← r.required "listId" Json.string?
    version := ← r.optional "listVersion" Json.count?
    start := ← r.required "startIndex" Json.index?
    minimum := ← r.optional "minimumInclusiveIndex" Json.index?
    maximum := ← r.optional "maximumExclusiveIndex" Json.index?
    items := ← r.required "items" Json.items? }

end IndexListing

/-- The first page of a token list. -/
structure TokenListing where
  listId : ListId
  version : Option Version
  page : String
  forward : Option String
  backward : Option String
  items : List Item
deriving DecidableEq, Repr, Inhabited

namespace TokenListing

/-- The members of a listing; what is not known is left out. -/
def members (p : TokenListing) : List (String × Json) :=
  [("listId", .str p.listId)] ++ Json.given "listVersion" (p.version.map Json.ofNat)
    ++ [("pageToken", .str p.page)]
    ++ Json.given "forwardPageToken" (p.forward.map .str)
    ++ Json.given "backwardPageToken" (p.backward.map .str)
    ++ [("items", .arr p.items)]

/-- A listing as JSON. -/
def toJson (p : TokenListing) : Json := .obj p.members

/-- The fields of a listing. -/
def fields : List Field :=
  [.fixed "listId", .droppable "listVersion", .fixed "pageToken", .droppable "forwardPageToken",
    .droppable "backwardPageToken", .fixed "items"]

/-- What the text of a listing is read for. -/
def schema : Schema := .record fields

/-- A listing from JSON. -/
def ofJson? (j : Json) : Option TokenListing := do
  let r ← j.record? fields
  return {
    listId := ← r.required "listId" Json.string?
    version := ← r.optional "listVersion" Json.count?
    page := ← r.required "pageToken" Json.string?
    forward := ← r.optional "forwardPageToken" Json.string?
    backward := ← r.optional "backwardPageToken" Json.string?
    items := ← r.required "items" Json.items? }

end TokenListing

/-- A list with its first items. -/
inductive Listing where
  | index (listing : IndexListing)
  | token (listing : TokenListing)
deriving DecidableEq, Repr, Inhabited

namespace Listing

/-- The kind of list a listing gives. -/
def kind : Listing → Kind
  | index _ => .index
  | token _ => .token

/-- The list a listing gives. -/
def listId : Listing → ListId
  | index p => p.listId
  | token p => p.listId

/-- The version a listing carries. -/
def version : Listing → Option Version
  | index p => p.version
  | token p => p.version

/-- A listing as JSON, tagged by its kind. -/
def toJson : Listing → Json
  | index p => .obj (("type", Kind.index.toJson) :: p.members)
  | token p => .obj (("type", Kind.token.toJson) :: p.members)

/-- A listing from JSON, by its tag. -/
def ofJson? (j : Json) : Option Listing := do
  let (tag, body) ← j.tagged? "type"
  match ← Kind.ofName? tag with
  | .index => return index (← IndexListing.ofJson? body)
  | .token => return token (← TokenListing.ofJson? body)

/-- A tag, if there is one, must name the kind of list that is expected. -/
def checkTag (kind : Kind) (j : Json) : Except Rejection Unit :=
  match (j.member? "type").bind Json.string? with
  | none => .ok ()
  | some tag => do
    let named ← Kind.parse tag
    if named = kind then .ok () else .error (.malformed (.kindMismatch named kind))

/-- Read a listing for a list of the given kind. -/
def parse (kind : Kind) (j : Json) : Except Rejection Listing := do
  checkTag kind j
  match kind with
  | .index => return index (← fitting (IndexListing.ofJson? j))
  | .token => return token (← fitting (TokenListing.ofJson? j))

end Listing

end ListSync
