import ListSync.Session.Access
import ListSync.Session.Update

/-!
# Accesses and updates in checked arithmetic

Most arithmetic on the indices of a session is bent back into the index range. What is left is
plain: the distance of an index from the start of the loaded items, the distances from both edges
when fetching ahead, the length of the part of an answer that lies before the loaded items, and the
start and the number of the loaded items once it is merged.

The functions here compute the same as those without `Checked` in their names, with every plain
result checked in the place where it is computed. Where one does not fit, they stop there.
-/

namespace ListSync

open Index (Overflow plain plainCount)

namespace IndexWindow

/-- The position of an index among the loaded items. It is computed before it is known whether the
index is one of theirs. -/
def positionChecked (w : IndexWindow) (i : Int) : Except Overflow (Option Nat) := do
  let distance ← plain (i - w.start)
  return if w.contains i then some distance.toNat else none

/-- The ranges worth fetching ahead. -/
def prefetchChecked (w : IndexWindow) (p : Policy) (i : Int) : Except Overflow (List Span) := do
  let distance := Index.wrapCount p.prefetchDistance
  if distance = 0 then return []
  else
    let fromStart ← plain (i - w.start)
    let last ← plain (w.stop - 1)
    let fromLast ← plain (last - i)
    return (if fromStart < distance ∧ ¬w.atStart then [w.rangeBefore p (Index.sub w.start 1)]
        else [])
      ++ (if fromLast < distance ∧ ¬w.atEnd then [w.rangeBehind p w.stop] else [])

/-- The ranges to fetch when an index is accessed. -/
def planChecked (w : IndexWindow) (p : Policy) (i : Int) : Except Overflow (List Span) := do
  let wanted ← if w.contains i then w.prefetchChecked p i else .ok (w.wanted p i)
  return wanted.filter fun s => s.start < s.stop && !w.overlapsInFlight s

/-- How fetched items extend the window. -/
def planMergeChecked (w : IndexWindow) (start : Int) (count : Nat) :
    Except Overflow (Except RangeFault MergePlan) := do
  let stop := Index.add start (Index.wrapCount count)
  if 0 < count ∧ (stop < w.start ∨ w.stop < start) then
    return .error (.detached ⟨start, stop⟩ w.span)
  else
    let before ← if start < w.start then plain (min stop w.start - start) else .ok 0
    return .ok {
      front := ⟨0, Index.toCount before⟩
      back :=
        if w.stop < stop then ⟨(max (Index.sub w.stop start) 0).toNat, count⟩ else ⟨count, count⟩ }

/-- The window after the planned items were put to the loaded ones. -/
def mergeChecked (w : IndexWindow) (p : MergePlan) : Except Overflow IndexWindow := do
  let start ← plain (w.start - Index.wrapCount p.front.length)
  let length ← plainCount p.length
  let count ← plainCount (w.count + length)
  return { w with start, count }

/-- The plan and the window for items that answer a request. -/
def absorbChecked (w : IndexWindow) (asked : Span) (start : Int) (count : Nat)
    (minimum maximum : Option Int) :
    Except Overflow (Except RangeFault (MergePlan × IndexWindow)) := do
  match ← w.planMergeChecked start count with
  | .error fault => return .error fault
  | .ok plan =>
    let merged ← w.mergeChecked plan
    let (minimum, maximum) := w.learnBounds asked (count = 0) minimum maximum
    let next := { merged with minimum, maximum }
    return match next.fault? with
      | some fault => .error fault
      | none => .ok (plan, next)

end IndexWindow

/-- The item at an absolute index of an index list. -/
def LoadedList.getIndexChecked (l : LoadedList) (i : Int) : Except Overflow (Option Item) :=
  match l.window with
  | .index w => do return (← w.positionChecked i).bind (l.items[·]?)
  | .token _ => return none

namespace Session

/-! ## Accesses -/

/-- The item at an absolute index of a list, if there is such a list. -/
def getIndexChecked (s : Session) (listId : ListId) (i : Int) : Except Overflow (Option Item) :=
  match s.find? listId with
  | some l => l.getIndexChecked i
  | none => return none

/-- An index of an index list is wanted. -/
def ensureIndexChecked (s : Session) (listId : ListId) (i : Int) :
    Except Overflow (Session × Except Rejection (List CorrelationToken)) :=
  if s.finished then return (s, .error .finished)
  else match s.findKind listId .index with
    | .error why => return (s, .error why)
    | .ok list => match list.window with
      | .token _ => return (s, .ok [])
      | .index w => do
        let (next, tokens) := s.fetchRanges listId (← w.planChecked s.policy i)
        return (next, .ok tokens)

/-- The loaded item at a position is wanted. -/
def ensurePositionChecked (s : Session) (listId : ListId) (position : Nat) :
    Except Overflow (Session × Except Rejection (List CorrelationToken)) :=
  if s.finished then return (s, .error .finished)
  else match s.find? listId with
    | none => return (s, .error (.unregistered listId))
    | some list => match list.window with
      | .index w => s.ensureIndexChecked listId (Index.add w.start (Index.wrapCount position))
      | .token _ => return s.fetchPages listId (s.policy.pagesAhead list.items.length position)

/-! ## Updates -/

/-- Put fetched items to an index list. All that is plain is how they extend the window. -/
def applyRangeChecked (s : Session) (list : LoadedList) (answer : RangeAnswer) :
    Except Overflow (Session × Except Rejection Applied) :=
  match s.checkRange answer, list.window with
  | .ok asked, .index w => do
    let _ ← (w.clear asked).absorbChecked asked answer.start answer.items.length answer.minimum
      answer.maximum
    return s.applyRange list answer
  | _, _ => return s.applyRange list answer

/-- Apply an update to the list it names, if that is of the given kind. -/
def dispatchChecked (s : Session) (kind : Kind) (update : Update) :
    Except Overflow (Session × Except Rejection Applied) :=
  match s.findKind update.listId kind with
  | .error why => return (s, .error why)
  | .ok list => match update with
    | .batch b => return s.applyBatch list b
    | .range a => s.applyRangeChecked list a
    | .page a => return s.applyPage list a

/-- Apply a batch of edits or an answer to a fetch. -/
def applyChecked (s : Session) (kindName : String) (payload : Json) :
    Except Overflow (Session × Except Rejection Applied) :=
  if s.finished then return (s, .error .finished)
  else match readUpdate kindName payload with
    | .error why => return (s.reject payload why, .error why)
    | .ok (kind, update) => do
      match ← s.dispatchChecked kind update with
      | (next, .ok applied) => return (next, .ok applied)
      | (next, .error why) => return (next.reject payload why, .error why)

end Session

end ListSync
