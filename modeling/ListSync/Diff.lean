import ListSync.Kind

/-!
# Differences between two renderings of a list

A difference says how to get from what is shown to what should be shown: either everything is new,
or positions were removed, inserted and updated, in the order listed. `Diff.replay?` is what a
display does with it: it walks through the changes and takes the content of inserted and updated
positions from the new items.
-/

namespace ListSync

/-- What happened at a position. -/
inductive ChangeKind where
  | insert
  | remove
  | update
deriving DecidableEq, Repr, Inhabited

namespace ChangeKind

/-- The name of a kind of change. -/
def name : ChangeKind → String
  | insert => "insert"
  | remove => "remove"
  | update => "update"

/-- A kind of change as JSON. -/
def toJson (k : ChangeKind) : Json := .str k.name

/-- The kind of change with a given name. -/
def ofName? (name : String) : Option ChangeKind := [insert, remove, update].find? (·.name = name)

@[simp]
theorem ofName?_name (k : ChangeKind) : ofName? k.name = some k := by cases k <;> rfl

/-- A kind of change from JSON. -/
def ofJson? (j : Json) : Option ChangeKind := j.name?.bind ofName?

/-- A kind of change from a field inside a tagged record. -/
def ofInnerJson? (j : Json) : Option ChangeKind := j.innerName?.bind ofName?

end ChangeKind

/-- A change at one position. -/
structure Change where
  position : Nat
  kind : ChangeKind
deriving DecidableEq, Repr, Inhabited

namespace Change

/-- An item appears at a position. -/
def insert (position : Nat) : Change := ⟨position, .insert⟩

/-- The item at a position disappears. -/
def remove (position : Nat) : Change := ⟨position, .remove⟩

/-- The item at a position has new content. -/
def update (position : Nat) : Change := ⟨position, .update⟩

/-- A change as JSON. -/
def toJson (c : Change) : Json :=
  .obj [("position", Json.ofNat c.position), ("kind", c.kind.toJson)]

/-- The fields of a change. -/
def fields : List Field := [.fixed "position", .fixed "kind"]

/-- What the text of a change is read for. -/
def schema : Schema := .record fields

/-- A change from its fields, of which the kind is read as given. -/
def ofFields? (kind : Json → Option ChangeKind) (j : Json) : Option Change := do
  let r ← j.record? fields
  return ⟨← r.required "position" Json.count?, ← r.required "kind" kind⟩

/-- A change from JSON. -/
def ofJson? (j : Json) : Option Change := ofFields? ChangeKind.ofJson? j

/-- A change from a field of a tagged record. -/
def ofInnerJson? (j : Json) : Option Change := ofFields? ChangeKind.ofInnerJson? j

/-- Carry out one change on the items shown, `target` being the items to be shown in the end. -/
def replay? {α : Type} (target : List α) (shown : List α) (c : Change) : Option (List α) :=
  match c.kind with
  | .remove => if c.position < shown.length then some (shown.eraseIdx c.position) else none
  | .insert => do
    let item ← target[c.position]?
    if c.position ≤ shown.length then some (shown.insertIdx c.position item) else none
  | .update => do
    let item ← target[c.position]?
    if c.position < shown.length then some (shown.set c.position item) else none

end Change

/-- The difference between two renderings of a list. -/
inductive Diff where
  /-- Everything is new; there are `length` items now. -/
  | replace (length : Nat)
  /-- Positions changed one after the other. -/
  | changes (changes : List Change)
deriving DecidableEq, Repr, Inhabited

namespace Diff

/-- Whether a difference changes nothing. -/
def isEmpty : Diff → Bool
  | replace _ => false
  | changes cs => cs.isEmpty

/-- The changes by position, none for a replacement. -/
def positional : Diff → List Change
  | replace _ => []
  | changes cs => cs

/-- A difference as JSON. -/
def toJson : Diff → Json
  | replace n => .obj [("type", .str "replace"), ("len", Json.ofNat n)]
  | changes cs => .obj [("type", .str "changes"), ("changes", .arr (cs.map Change.toJson))]

/-- A difference from JSON. -/
def ofJson? (j : Json) : Option Diff := do
  let (tag, body) ← j.tagged? "type"
  match tag with
  | "replace" =>
    let r ← body.record? [.fixed "len"]
    return replace (← r.required "len" Json.count?)
  | "changes" =>
    let r ← body.record? [.fixed "changes"]
    return changes (← r.required "changes" (Json.list? Change.ofInnerJson?))
  | _ => none

/-- Carry out a difference on the items shown. There is no result if a position does not exist when
it is reached, or if a replacement announces another number of items than there are. -/
def replay? {α : Type} (target : List α) (shown : List α) : Diff → Option (List α)
  | replace n => if n = target.length then some target else none
  | changes cs => cs.foldlM (Change.replay? target) shown

end Diff

/-- A change set for the display of one list. -/
structure ListChange where
  listId : ListId
  diff : Diff
deriving DecidableEq, Repr, Inhabited

namespace ListChange

/-- A change set as JSON. -/
def toJson (c : ListChange) : Json :=
  .obj [("listId", .str c.listId), ("diff", c.diff.toJson)]

/-- The fields of a change set. -/
def fields : List Field := [.fixed "listId", .fixed "diff"]

/-- What the text of a change set is read for. -/
def schema : Schema := .record fields

/-- A change set from JSON. -/
def ofJson? (j : Json) : Option ListChange := do
  let r ← j.record? fields
  return ⟨← r.required "listId" Json.string?, ← r.required "diff" Diff.ofJson?⟩

end ListChange

end ListSync
