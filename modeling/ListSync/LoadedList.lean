import ListSync.Listing
import ListSync.Window

/-!
# Loaded lists

A list as a session knows it: the items that are loaded, and a window that says which part of the
whole list they are.
-/

namespace ListSync

/-- A list of which some items are loaded. -/
structure LoadedList where
  id : ListId
  items : List Item
  window : Window
deriving DecidableEq, Repr, Inhabited

namespace LoadedList

/-- The list that a payload gives, if its range and bounds are consistent. -/
def ofPayload : Listing → Except Rejection LoadedList
  | .index p =>
    match IndexWindow.create p.start p.items.length p.minimum p.maximum with
    | .ok window => .ok ⟨p.listId, p.items, .index window⟩
    | .error fault => .error (.inconsistentRange p.listId fault.message)
  | .token p =>
    let window : TokenWindow := { anchor := p.page, forward := p.forward, backward := p.backward }
    .ok ⟨p.listId, p.items, .token window⟩

/-- The kind of a list. -/
def kind (l : LoadedList) : Kind := l.window.kind

/-- Refuse a list of another kind than the given one. -/
def expect (l : LoadedList) (kind : Kind) : Except Rejection Unit :=
  if l.kind = kind then .ok () else .error (.wrongKind l.id kind.name l.kind.name)

/-- The item at an absolute index of an index list. -/
def getIndex? (l : LoadedList) (i : Int) : Option Item :=
  match l.window with
  | .index w => (w.position? i).bind (l.items[·]?)
  | .token _ => none

/-- Whether anything is being fetched for a list. -/
def isFetching (l : LoadedList) : Bool := l.window.hasInFlight

/-- A list as JSON. -/
def toJson (l : LoadedList) : Json :=
  .obj [("listId", .str l.id), ("items", .arr l.items), ("window", l.window.toJson)]

/-- The fields of a list. -/
def fields : List Field := [.fixed "listId", .fixed "items", .fixed "window"]

/-- What the text of a list is read for. -/
def schema : Schema := .record fields

/-- A list from JSON. -/
def ofJson? (j : Json) : Option LoadedList := do
  let r ← j.record? fields
  return {
    id := ← r.required "listId" Json.string?
    items := ← r.required "items" Json.items?
    window := ← r.required "window" Window.ofJson? }

end LoadedList

end ListSync
