import ListSync.Edit.Basic

/-!
# What a subscriber holds of a list

A client addresses edits by position among the items it holds. A batch for the whole list is
therefore rebased for each subscriber: `Holding.rebase` turns its edits into edits on the held
range and moves that range along. Edits before the range only move it, edits behind it are dropped.
-/

namespace ListSync.Producer

/-- The range of a list that a subscriber holds. -/
structure Holding where
  start : Int
  stop : Int
deriving DecidableEq, Repr, Inhabited

namespace Holding

/-- The range of some items from an index on. -/
def ofCount (start : Int) (count : Nat) : Holding := ⟨start, Index.add start (Index.ofCount count)⟩

/-- The number of items held. -/
def length (h : Holding) : Nat := (h.stop - h.start).toNat

/-- Whether nothing is held. -/
def isEmpty (h : Holding) : Bool := h.stop ≤ h.start

/-- The smallest range that covers what is held and what was fetched. -/
def extend (h : Holding) (start : Int) (count : Nat) : Holding :=
  let fetched := ofCount start count
  ⟨min h.start fetched.start, max h.stop fetched.stop⟩

/-- Both ends moved. -/
def shift (h : Holding) (d : Int) : Holding := ⟨Index.add h.start d, Index.add h.stop d⟩

variable {α : Type}

/-- Follow an insertion of `count` items, which the edit describes within the held range. -/
def rebaseInsert (h : Holding) (i : Int) (count : Nat) (e : Edit α) :
    Holding × Option (Edit α) :=
  if i < h.start then (h.shift (Index.ofCount count), none)
  else if i ≤ h.stop then ({ h with stop := Index.add h.stop (Index.ofCount count) }, some e)
  else (h, none)

/-- Follow a deletion of a run of items. The part of the run before the held range moves it, the
part inside is deleted from it. -/
def rebaseDelete (h : Holding) (i : Int) (count : Nat) : Holding × Option (Edit α) :=
  let runStop := Index.add i (Index.ofCount count)
  let before := min runStop h.start - min i h.start
  let first := max i h.start
  let last := min runStop h.stop
  if first < last then
    ({ h with stop := h.stop - (last - first) }.shift (-before),
      some (.deleteMany (first - h.start) (last - first).toNat))
  else (h.shift (-before), none)

/-- Turn one edit on the whole list into an edit on the held range, if it reaches into that. -/
def rebaseOne (h : Holding) (e : Edit α) : Holding × Option (Edit α) :=
  match e with
  | .insert i x => h.rebaseInsert i 1 (.insert (i - h.start) x)
  | .insertMany i xs => h.rebaseInsert i xs.length (.insertMany (i - h.start) xs)
  | .delete i =>
    if i < h.start then (h.shift (-1), none)
    else if i < h.stop then ({ h with stop := h.stop - 1 }, some (.delete (i - h.start)))
    else (h, none)
  | .deleteMany i count => h.rebaseDelete i count
  | .set i x =>
    if h.start ≤ i ∧ i < h.stop then (h, some (.set (i - h.start) x)) else (h, none)

/-- Rebase edits in order. -/
def rebaseAll (h : Holding) : List (Edit α) → Holding × List (Edit α)
  | [] => (h, [])
  | e :: edits =>
    let (next, inside) := h.rebaseOne e
    let (last, rest) := next.rebaseAll edits
    (last, inside.toList ++ rest)

/-- Rebase the edits of a batch. The edits at the given places were skipped in the whole list and
are left out. -/
def rebase (h : Holding) (edits : List (Edit α)) (skipped : List Nat) :
    Holding × List (Edit α) :=
  h.rebaseAll ((edits.zipIdx.filter fun e => !skipped.contains e.2).map (·.1))

end Holding

end ListSync.Producer
