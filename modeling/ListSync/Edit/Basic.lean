import ListSync.Kind

/-!
# Edits and batches

A change to a list comes as a batch of edits with the version it produces. An edit addresses a
position in the list as it is when the edit is reached, and items are opaque to it.
-/

namespace ListSync

/-- A single change to a list of items. -/
inductive Edit (α : Type) where
  /-- Put an item before the given position; the position after the last item appends. -/
  | insert (index : Int) (item : α)
  /-- Put several items before the given position, keeping their order. -/
  | insertMany (index : Int) (items : List α)
  /-- Take out the item at a position. -/
  | delete (index : Int)
  /-- Take out a run of items from a position on. -/
  | deleteMany (index : Int) (count : Nat)
  /-- Put another item in the place of one. -/
  | set (index : Int) (item : α)
deriving DecidableEq, Repr, Inhabited

namespace Edit

variable {α : Type}

/-- The position an edit addresses. -/
def index : Edit α → Int
  | insert i _ | insertMany i _ | delete i | deleteMany i _ | set i _ => i

/-- The name of an edit in payloads. -/
def name : Edit α → String
  | insert .. => "InsertItem"
  | insertMany .. => "InsertMultipleItems"
  | delete .. => "DeleteItem"
  | deleteMany .. => "DeleteMultipleItems"
  | set .. => "SetItem"

/-- Change the items an edit carries. -/
def map {β : Type} (f : α → β) : Edit α → Edit β
  | insert i x => insert i (f x)
  | insertMany i xs => insertMany i (xs.map f)
  | delete i => delete i
  | deleteMany i n => deleteMany i n
  | set i x => set i (f x)

/-- An edit as JSON, tagged by its name. -/
def toJson (e : Edit Item) : Json :=
  let fields := match e with
    | insert i x => [("index", Json.ofInt i), ("item", x)]
    | insertMany i xs => [("index", Json.ofInt i), ("items", .arr xs)]
    | delete i => [("index", Json.ofInt i)]
    | deleteMany i n => [("index", Json.ofInt i), ("count", Json.ofNat n)]
    | set i x => [("index", Json.ofInt i), ("item", x)]
  .obj (("type", .str e.name) :: fields)

/-- An edit that carries one item, from its fields. -/
def itemFields? (make : Int → Item → Edit Item) (j : Json) : Option (Edit Item) := do
  let r ← j.record? [.fixed "index", .fixed "item"]
  return make (← r.required "index" Json.index?) (← r.required "item" some)

/-- An edit from JSON. -/
def ofJson? (j : Json) : Option (Edit Item) := do
  let (tag, body) ← j.tagged? "type"
  match tag with
  | "InsertItem" => itemFields? insert body
  | "SetItem" => itemFields? set body
  | "InsertMultipleItems" =>
    let r ← body.record? [.fixed "index", .fixed "items"]
    return insertMany (← r.required "index" Json.index?) (← r.required "items" Json.items?)
  | "DeleteItem" =>
    let r ← body.record? [.fixed "index"]
    return delete (← r.required "index" Json.index?)
  | "DeleteMultipleItems" =>
    let r ← body.record? [.fixed "index", .fixed "count"]
    return deleteMany (← r.required "index" Json.index?) (← r.required "count" Json.count?)
  | _ => none

/-- What the text of an edit is read for. An edit is read to its end before its fields are looked
at, but its name is looked at as soon as it is seen. -/
def schema : Schema :=
  .variant "type"
    ["InsertItem", "InsertMultipleItems", "DeleteItem", "DeleteMultipleItems", "SetItem"]
    fun j => (ofJson? j).isSome

end Edit

/-- The edits that take a list to its next version. -/
structure Batch where
  listId : ListId
  version : Version
  edits : List (Edit Item)
deriving DecidableEq, Repr, Inhabited

namespace Batch

/-- A batch as JSON. -/
def toJson (b : Batch) : Json :=
  .obj [("listId", .str b.listId), ("listVersion", Json.ofNat b.version),
    ("operations", .arr (b.edits.map Edit.toJson))]

/-- The fields of a batch. -/
def fields : List Field :=
  [.fixed "listId", .fixed "listVersion", .nested "operations" (.list Edit.schema)]

/-- What the text of a batch is read for. -/
def schema : Schema := .record fields

/-- A batch from JSON. -/
def ofJson? (j : Json) : Option Batch := do
  let r ← j.record? fields
  return {
    listId := ← r.required "listId" Json.string?
    version := ← r.required "listVersion" Json.count?
    edits := ← r.required "operations" (Json.list? Edit.ofJson?) }

end Batch

end ListSync
