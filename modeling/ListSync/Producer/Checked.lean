import ListSync.Producer.Service

/-!
# Batches in checked arithmetic

Both ends of a held range stop at the ends of the index range when an edit moves them. What else is
computed on the way is plain: how far an edit is from the start of the range, how much of a deletion
lies before the range and within it, and where the range ends after an edit of one item or a
deletion.

The functions here compute the same as those without `Checked` in their names, with every plain
result checked in the place where it is computed. Where one does not fit, they stop there. A list is
changed before the batch is published, so a change that stops leaves the list changed and some of
its subscribers without the batch.
-/

namespace ListSync.Producer

open Index (Overflow plain)

namespace Holding

variable {α : Type}

/-- Follow a deletion of a run of items. -/
def rebaseDeleteChecked (h : Holding) (i : Int) (count : Nat) :
    Except Overflow (Holding × Option (Edit α)) := do
  let runStop := Index.add i (Index.ofCount count)
  let before ← plain (min runStop h.start - min i h.start)
  let first := max i h.start
  let last := min runStop h.stop
  if first < last then
    let place ← plain (first - h.start)
    let length ← plain (last - first)
    let stop ← plain (h.stop - length)
    let back ← plain (-before)
    return ({ h with stop }.shift back, some (.deleteMany place length.toNat))
  else
    let back ← plain (-before)
    return (h.shift back, none)

/-- Turn one edit on the whole list into an edit on the held range, if it reaches into that. Its
place in the range is computed before it is known whether it does. -/
def rebaseOneChecked (h : Holding) (e : Edit α) : Except Overflow (Holding × Option (Edit α)) := do
  let place ← plain (e.index - h.start)
  match e with
  | .insert i x =>
    if i < h.start then return (h.shift 1, none)
    else if i ≤ h.stop then
      let stop ← plain (h.stop + 1)
      return ({ h with stop }, some (.insert place x))
    else return (h, none)
  | .insertMany i xs => return h.rebaseInsert i xs.length (.insertMany place xs)
  | .delete i =>
    if i < h.start then return (h.shift (-1), none)
    else if i < h.stop then
      let stop ← plain (h.stop - 1)
      return ({ h with stop }, some (.delete place))
    else return (h, none)
  | .deleteMany i count => h.rebaseDeleteChecked i count
  | .set i x => return if h.start ≤ i ∧ i < h.stop then (h, some (.set place x)) else (h, none)

/-- Rebase edits in order. -/
def rebaseAllChecked (h : Holding) : List (Edit α) → Except Overflow (Holding × List (Edit α))
  | [] => return (h, [])
  | e :: edits => do
    let (next, inside) ← h.rebaseOneChecked e
    let (last, rest) ← next.rebaseAllChecked edits
    return (last, inside.toList ++ rest)

/-- Rebase the edits of a batch, less those at the given places. -/
def rebaseChecked (h : Holding) (edits : List (Edit α)) (skipped : List Nat) :
    Except Overflow (Holding × List (Edit α)) :=
  h.rebaseAllChecked ((edits.zipIdx.filter fun e => !skipped.contains e.2).map (·.1))

end Holding

namespace Hub

/-- Push a batch to one connection, and say whether it could be sent. -/
def pushChecked (h : Hub) (kind : Kind) (batch : Batch) (skipped : List Nat) (id : ConnectionId) :
    Except Overflow (Hub × Bool) :=
  match h.holding? id batch.listId with
  | some range => do
    let (moved, edits) ← range.rebaseChecked batch.edits skipped
    return (h.setHolding id batch.listId moved).send id (.update kind { batch with edits })
  | none => return h.send id (.update kind batch)

/-- Push a batch to several connections, and count those it could be sent to. -/
def pushAllChecked (h : Hub) (kind : Kind) (batch : Batch) (skipped : List Nat) :
    List ConnectionId → Except Overflow (Hub × Nat)
  | [] => return (h, 0)
  | id :: ids => do
    let (next, sent) ← h.pushChecked kind batch skipped id
    let (last, count) ← next.pushAllChecked kind batch skipped ids
    return (last, count + sent.toNat)

/-- Push a batch to all subscribers of its list, and count those it could be sent to. -/
def publishChecked (h : Hub) (kind : Kind) (batch : Batch) (skipped : List Nat) :
    Except Overflow (Hub × Nat) :=
  h.pushAllChecked kind batch skipped (h.subscribers batch.listId)

end Hub

/-- A change that has stopped while the batch was published. -/
structure Aborted where
  /-- The lists as they are by then. -/
  catalog : Catalog
  overflow : Overflow

/-- Apply edits to a list and push the batch to its subscribers. -/
def Service.changeChecked (s : Service) (listId : ListId) (edits : List (Edit Item)) :
    Except Aborted (Service × Except Failure Changed) :=
  if edits.isEmpty then return (s, .error .noEdits)
  else match s.catalog.find listId with
    | .error why => return (s, .error (.refused why))
    | .ok list => match s.catalog.apply listId edits with
      | .error why => return (s, .error (.refused why))
      | .ok (catalog, batch, warnings) =>
        match s.hub.publishChecked list.kind batch (warnings.map (·.place)) with
        | .error overflow => .error { catalog, overflow }
        | .ok (hub, notified) =>
          return ({ s with catalog, hub }, .ok ⟨listId, batch.version, warnings, notified⟩)

end ListSync.Producer
