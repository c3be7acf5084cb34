import ListSync.Answer
import ListSync.Edit.Apply
import ListSync.Fetch.Request
import ListSync.Json.Reader
import ListSync.Listing
import ListSync.Producer.PageToken

/-!
# Lists held in full

A producer holds each of its lists in full. The items of an index list have the indices from zero
on. A token list is cut into pages of one size, the last of which may be shorter; an empty list has
one page with nothing on it.

Answers to fetches carry no version: the version of a client moves with batches only.
-/

namespace ListSync.Producer

/-- Why a producer cannot do what it is asked. -/
inductive Refusal where
  | notFound (listId : ListId)
  | wrongKind (listId : ListId) (actual : Kind)
  | invalidPageToken (text : String)
  | duplicate (listId : ListId)
  /-- The file with the lists cannot be read. -/
  | noFile
  /-- The file with the lists does not hold lists. -/
  | badFile
deriving DecidableEq, Repr

namespace Refusal

/-- The wording of a refusal. -/
def message : Refusal → String
  | notFound listId => s!"list not found: {listId}"
  | wrongKind listId actual => s!"list '{listId}' is a {actual.name} list"
  | invalidPageToken text => s!"invalid page token: {text}"
  | duplicate listId => s!"duplicate list id: {listId}"
  | noFile => "failed to read lists file: no such file"
  | badFile => "failed to parse lists file: not an array of lists"

end Refusal

/-- What a list starts with. -/
structure Seed where
  listId : ListId
  kind : Kind
  version : Version
  pageSize : Option Nat
  items : List Item
deriving DecidableEq, Repr, Inhabited

namespace Seed

/-- The fields of a seed. -/
def fields : List Field :=
  [.fixed "listId", .fixed "type", .droppable "listVersion", .droppable "pageSize", .fixed "items"]

/-- What the text of a seed is read for. -/
def schema : Schema := .record fields

/-- A seed from JSON. -/
def ofJson? (j : Json) : Option Seed := do
  let r ← j.record? fields
  return {
    listId := ← r.required "listId" Json.string?
    kind := ← r.required "type" Kind.ofJson?
    version := ← r.withDefault "listVersion" Json.count? 0
    pageSize := ← r.optional "pageSize" Json.count?
    items := ← r.required "items" Json.items? }

/-- Read the text of a seed file, an array of seeds. -/
def readAll? (text : String) : Option (List Seed) := do
  let seeds ← (Schema.list schema).decode? (Json.list? ofJson?) text
  return seeds.map fun s => { s with items := s.items.map Json.settle }

end Seed

/-- Where a client wants to start. -/
structure Query where
  /-- The first index, for index lists. -/
  start : Option Int := none
  /-- The number of items, for index lists. -/
  count : Option Nat := none
  /-- The page to anchor on, for token lists. -/
  page : Option Nat := none
deriving DecidableEq, Repr, Inhabited

/-- A query from JSON. -/
def Query.ofJson? (j : Json) : Option Query := do
  let r ← j.record? [.fixed "startIndex", .fixed "count", .fixed "page"]
  return {
    start := ← r.optional "startIndex" Json.index?
    count := ← r.optional "count" Json.count?
    page := ← r.optional "page" Json.count? }

/-- What is told about a list without its items. -/
structure Summary where
  listId : ListId
  kind : Kind
  version : Version
  length : Nat
deriving DecidableEq, Repr, Inhabited

/-- A summary as JSON. -/
def Summary.toJson (s : Summary) : Json :=
  .obj [("listId", .str s.listId), ("type", s.kind.toJson), ("listVersion", Json.ofNat s.version),
    ("length", Json.ofNat s.length)]

/-- A list that is held in full. -/
structure FullList where
  id : ListId
  kind : Kind
  version : Version
  items : List Item
  pageSize : Nat
  pageSize_pos : 0 < pageSize
deriving DecidableEq, Repr

namespace FullList

/-- The list that a seed gives. A page size of zero counts as none given. -/
def ofSeed (seed : Seed) (defaultSize : Nat) (h : 0 < defaultSize) : FullList where
  id := seed.listId
  kind := seed.kind
  version := seed.version
  items := seed.items
  pageSize := match seed.pageSize with
    | some (size + 1) => size + 1
    | _ => defaultSize
  pageSize_pos := by split <;> omega

/-- What is told about a list without its items. -/
def summary (l : FullList) : Summary := ⟨l.id, l.kind, l.version, l.items.length⟩

/-! ## Index lists -/

/-- The positions of up to `count` items from an index on, as far as there are items. -/
def slice (l : FullList) (start : Int) (count : Nat) : Nat × Nat :=
  -- only the begin is clamped, so a range that begins before the list is moved as a whole
  let first := min (max start 0).toNat l.items.length
  (first, min (first + count) l.items.length)

/-- The items of a slice. -/
def sliceItems (l : FullList) (slice : Nat × Nat) : List Item :=
  (l.items.take slice.2).drop slice.1

/-! ## Token lists -/

/-- The number of pages with items on them. -/
def pageCount (l : FullList) : Nat := (l.items.length + l.pageSize - 1) / l.pageSize

/-- Whether there is a page with the given number. -/
def hasPage (l : FullList) (page : Nat) : Bool :=
  page < l.pageCount || (page = 0 && l.items.isEmpty)

/-- The items on a page. -/
def pageItems (l : FullList) (page : Nat) : List Item :=
  (l.items.drop (page * l.pageSize)).take l.pageSize

/-- The token of the page behind a page. -/
def forwardOf (l : FullList) (page : Nat) : Option String :=
  if page + 1 < l.pageCount then some (PageToken.forward (page + 1)).text else none

/-- The token of the page before a page. -/
def backwardOf (_ : FullList) : Nat → Option String
  | 0 => none
  | page + 1 => some (PageToken.backward page).text

/-- The token that a text stands for. -/
def readToken (text : String) : Except Refusal PageToken :=
  match PageToken.parse? text with
  | some token => .ok token
  | none => .error (.invalidPageToken text)

/-- The index of the first item of a page in the list as a whole, read as an index from the greatest
count on. -/
def pageStart (l : FullList) (text : String) : Except Refusal Int := do
  let token ← readToken text
  return Index.wrapCount (min (token.page * l.pageSize) maxCount)

/-! ## Payloads and answers -/

/-- The payload with which a client registers a list. -/
def initial (l : FullList) (q : Query) : Except Refusal Listing :=
  match l.kind with
  | .index =>
    let slice := l.slice (q.start.getD 0) (q.count.getD l.pageSize)
    .ok (.index {
      listId := l.id
      version := some l.version
      start := slice.1
      minimum := some 0
      maximum := some l.items.length
      items := l.sliceItems slice })
  | .token =>
    let page := q.page.getD 0
    if l.hasPage page then
      .ok (.token {
        listId := l.id
        version := some l.version
        page := (PageToken.anchor page).text
        forward := l.forwardOf page
        backward := l.backwardOf page
        items := l.pageItems page })
    else .error (.invalidPageToken (PageToken.anchor page).text)

/-- The token of the page beyond one that was reached through a token. -/
def beyond (l : FullList) : PageToken → Option String
  | .backward page => l.backwardOf page
  | .anchor page => l.forwardOf page
  | .forward page => l.forwardOf page

/-- The answer to a fetch. -/
def respond (l : FullList) (request : FetchRequest) : Except Refusal Answer :=
  match l.kind, request with
  | .index, .range token _ start count =>
    let slice := l.slice start count
    .ok (.range {
      listId := l.id
      token
      version := none
      start := slice.1
      minimum := some 0
      maximum := some l.items.length
      items := l.sliceItems slice })
  | .token, .page token _ wanted => do
    let address ← readToken wanted
    if l.hasPage address.page then
      return .page {
        listId := l.id
        token
        version := none
        page := wanted
        next := l.beyond address
        items := l.pageItems address.page }
    else .error (.invalidPageToken wanted)
  | actual, _ => .error (.wrongKind l.id actual)

/-- Apply edits and go on to the next version. Gives the batch and the edits that were
skipped or trimmed. -/
def apply (l : FullList) (edits : List (Edit Item)) : FullList × Batch × List Warning :=
  let (items, outcome) := applyEdits l.items edits
  let version := l.version + 1
  ({ l with items, version }, ⟨l.id, version, edits⟩, outcome.warnings)

end FullList

end ListSync.Producer
