import ListSync.Diff
import ListSync.Edit.Basic

/-!
# Applying edits to items

`applyEdits` applies the edits of a batch in order. An edit that does not fit the items as they are
when it is reached is skipped or trimmed, and noted in a warning; the rest of the batch still
applies.

While a batch is applied, every item remembers where it came from. The difference is read off the
items that are left: removals of earlier positions from the back, then insertions and then updates
at final positions from the front. Items that come and go within one batch leave no trace, and a new
item that is set again is just inserted.

`extend` and `replaceAll` are the two other ways in which items change.
-/

namespace ListSync

variable {α : Type}

/-! ## Where edits fit -/

/-- A position at which something can be inserted into `length` items. -/
def insertPosition? (index : Int) (length : Nat) : Option Nat :=
  if 0 ≤ index ∧ index ≤ length then some index.toNat else none

/-- The position of one of `length` items. -/
def itemPosition? (index : Int) (length : Nat) : Option Nat :=
  if 0 ≤ index ∧ index < length then some index.toNat else none

/-- Why an edit was skipped or trimmed. -/
inductive Misfit where
  /-- There is no such position; the edit was skipped. -/
  | outOfBounds (index : Int) (length : Nat)
  /-- Fewer items follow than should be deleted; the edit was trimmed. -/
  | overrun (count available : Nat) (index : Int)
deriving DecidableEq, Repr

namespace Misfit

/-- The wording of a misfit. -/
def message : Misfit → String
  | outOfBounds index length =>
    s!"index {index} is out of bounds for {length} items, skipped"
  | overrun count available index =>
    s!"count {count} overruns the {available} items after index {index}, clamped"

end Misfit

namespace Edit

/-- How an edit fails to fit `length` items. To delete no items fits everywhere. -/
def misfit? (e : Edit α) (length : Nat) : Option Misfit :=
  match e with
  | insert i _ | insertMany i _ =>
    if (insertPosition? i length).isSome then none else some (.outOfBounds i length)
  | delete i | set i _ =>
    if (itemPosition? i length).isSome then none else some (.outOfBounds i length)
  | deleteMany i count =>
    if count = 0 then none
    else match itemPosition? i length with
      | none => some (.outOfBounds i length)
      | some position =>
        if length - position < count then some (.overrun count (length - position) i) else none

end Edit

/-! ## Items with a memory -/

/-- Where an item came from. -/
inductive Origin where
  /-- It was there before the batch; `touched` once it was set. -/
  | earlier (position : Nat) (touched : Bool)
  /-- It was inserted by the batch. -/
  | inserted
deriving DecidableEq, Repr

namespace Origin

/-- The earlier position of an item that was there before. -/
def position? : Origin → Option Nat
  | earlier p _ => some p
  | inserted => none

/-- The origin of an item after it was set. -/
def touch : Origin → Origin
  | earlier p _ => earlier p true
  | inserted => inserted

end Origin

/-- An item and where it came from. -/
structure Slot (α : Type) where
  item : α
  origin : Origin
deriving DecidableEq, Repr

namespace Slot

/-- A slot for an item that the batch inserts. -/
def fresh (item : α) : Slot α := ⟨item, .inserted⟩

/-- Another item in the same slot. -/
def overwrite (item : α) (s : Slot α) : Slot α := ⟨item, s.origin.touch⟩

/-- The slots of the items before a batch. -/
def ofItems (items : List α) : List (Slot α) :=
  items.zipIdx.map fun (item, position) => ⟨item, .earlier position false⟩

end Slot

namespace Edit

/-- Apply one edit to the slots. What does not fit changes nothing. -/
def onSlots (e : Edit α) (slots : List (Slot α)) : List (Slot α) :=
  match e with
  | insert i x => match insertPosition? i slots.length with
    | some p => slots.insertIdx p (Slot.fresh x)
    | none => slots
  | insertMany i xs => match insertPosition? i slots.length with
    | some p => slots.take p ++ xs.map Slot.fresh ++ slots.drop p
    | none => slots
  | delete i => match itemPosition? i slots.length with
    | some p => slots.eraseIdx p
    | none => slots
  | deleteMany i count => match itemPosition? i slots.length with
    | some p => slots.take p ++ slots.drop (p + count)
    | none => slots
  | set i x => match itemPosition? i slots.length with
    | some p => slots.modify p (Slot.overwrite x)
    | none => slots

end Edit

/-! ## The difference that slots show -/

/-- The difference between `length` earlier items and what became of them. -/
def Slot.diff (length : Nat) (slots : List (Slot α)) : Diff :=
  let survivors := slots.filterMap (·.origin.position?)
  let removed := (List.range length).reverse.filter fun p => !survivors.contains p
  let inserted := slots.zipIdx.filter fun s => s.1.origin = .inserted
  let updated := slots.zipIdx.filter fun s => match s.1.origin with
    | .earlier _ touched => touched
    | .inserted => false
  .changes (removed.map .remove ++ inserted.map (.insert ·.2) ++ updated.map (.update ·.2))

/-! ## Batches -/

/-- An edit of a batch that was skipped or trimmed. -/
structure Warning where
  /-- The place of the edit in its batch. -/
  place : Nat
  /-- The name of the edit. -/
  edit : String
  message : String
deriving DecidableEq, Repr, Inhabited

namespace Warning

/-- The warning for an edit that does not fit. -/
def ofMisfit (place : Nat) (e : Edit α) (misfit : Misfit) : Warning :=
  { place, edit := e.name, message := misfit.message }

/-- A warning as JSON. -/
def toJson (w : Warning) : Json :=
  .obj [("operationIndex", Json.ofNat w.place), ("operation", .str w.edit),
    ("message", .str w.message)]

/-- The fields of a warning. -/
def fields : List Field := [.fixed "operationIndex", .fixed "operation", .fixed "message"]

/-- What the text of a warning is read for. -/
def schema : Schema := .record fields

/-- A warning from JSON. -/
def ofJson? (j : Json) : Option Warning := do
  let r ← j.record? fields
  return {
    place := ← r.required "operationIndex" Json.count?
    edit := ← r.required "operation" Json.string?
    message := ← r.required "message" Json.string? }

end Warning

/-- What a batch did, apart from the items themselves. -/
structure Outcome where
  diff : Diff
  warnings : List Warning
  /-- By how much the number of items grew. -/
  delta : Int
deriving DecidableEq, Repr, Inhabited

namespace Outcome

/-- An outcome as JSON. -/
def toJson (o : Outcome) : Json :=
  .obj [("diff", o.diff.toJson), ("warnings", .arr (o.warnings.map Warning.toJson)),
    ("delta", Json.ofInt o.delta)]

/-- The fields of an outcome. -/
def fields : List Field :=
  [.fixed "diff", .nested "warnings" (.list Warning.schema), .fixed "delta"]

/-- What the text of an outcome is read for. -/
def schema : Schema := .record fields

/-- An outcome from JSON. -/
def ofJson? (j : Json) : Option Outcome := do
  let r ← j.record? fields
  return {
    diff := ← r.required "diff" Diff.ofJson?
    warnings := ← r.required "warnings" (Json.list? Warning.ofJson?)
    delta := ← r.required "delta" Json.index? }

end Outcome

/-- A batch on its way: the slots so far, and the warnings so far. -/
structure Progress (α : Type) where
  slots : List (Slot α)
  warnings : List Warning

namespace Progress

/-- Apply the edit at a place of the batch. -/
def step (s : Progress α) (next : Edit α × Nat) : Progress α :=
  let (e, place) := next
  { slots := e.onSlots s.slots
    warnings := s.warnings
      ++ ((e.misfit? s.slots.length).map (Warning.ofMisfit place e)).toList }

/-- Apply edits in order to the slots of some items. -/
def run (items : List α) (edits : List (Edit α)) : Progress α :=
  edits.zipIdx.foldl step ⟨Slot.ofItems items, []⟩

end Progress

/-- Apply edits in order to some items. -/
def applyEdits (items : List α) (edits : List (Edit α)) : List α × Outcome :=
  let last := Progress.run items edits
  (last.slots.map (·.item),
    { diff := Slot.diff items.length last.slots
      warnings := last.warnings
      delta := last.slots.length - items.length })

/-! ## Other ways in which items change -/

/-- Put items in front and behind. The insertions are listed in front first, each at the position it
has while the items grow. -/
def extend (items front back : List α) : List α × Diff :=
  let behind := front.length + items.length
  (front ++ items ++ back,
    .changes ((List.range front.length).map .insert
      ++ (List.range' behind back.length).map .insert))

/-- Put other items in the place of all. -/
def replaceAll (replacement : List α) : List α × Diff := (replacement, .replace replacement.length)

end ListSync
