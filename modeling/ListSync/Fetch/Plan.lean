import ListSync.Fetch.Policy
import ListSync.Window

/-!
# Planning fetches

What to fetch when an item is wanted. An index that is not loaded asks for one range, from the
loaded items up to the index and at least a chunk long where the bounds allow it. A loaded item near
an edge asks for what lies beyond the edge. Nothing is planned that overlaps a range in flight, and
no page that is being fetched.
-/

namespace ListSync

namespace IndexWindow

/-- The range before the loaded items that reaches back to an index and to a full chunk. -/
def rangeBefore (w : IndexWindow) (p : Policy) (i : Int) : Span :=
  let start := min i (Index.sub w.start p.chunkSize)
  ⟨match w.minimum with
    | some lo => max start lo
    | none => start, w.start⟩

/-- The range behind the loaded items that reaches up to an index and to a full chunk. -/
def rangeBehind (w : IndexWindow) (p : Policy) (i : Int) : Span :=
  let stop := max (Index.add i 1) (Index.add w.stop p.chunkSize)
  ⟨w.stop, match w.maximum with
    | some hi => min stop hi
    | none => stop⟩

/-- The ranges worth fetching ahead when a loaded index is accessed. The distance is read as an
index. -/
def prefetch (w : IndexWindow) (p : Policy) (i : Int) : List Span :=
  -- a distance beyond the greatest index is negative here, and nothing is near to an edge
  let distance := Index.wrapCount p.prefetchDistance
  if distance = 0 then []
  else
    (if i - w.start < distance ∧ ¬w.atStart then [w.rangeBefore p (Index.sub w.start 1)] else [])
    ++ (if w.stop - 1 - i < distance ∧ ¬w.atEnd then [w.rangeBehind p w.stop] else [])

/-- The ranges an access asks for, whether or not they are in flight. -/
def wanted (w : IndexWindow) (p : Policy) (i : Int) : List Span :=
  if w.contains i then w.prefetch p i
  else if w.needsFetch i then
    [if i < w.start then w.rangeBefore p i else w.rangeBehind p i]
  else []

/-- The ranges to fetch when an index is accessed. -/
def plan (w : IndexWindow) (p : Policy) (i : Int) : List Span :=
  (w.wanted p i).filter fun s => s.start < s.stop && !w.overlapsInFlight s

end IndexWindow

/-- The directions in which to fetch the next page when the item at a position is accessed. -/
def Policy.pagesAhead (p : Policy) (length position : Nat) : List Direction :=
  if p.prefetchDistance = 0 ∨ length ≤ position then []
  else
    (if position < p.prefetchDistance then [.backward] else [])
    ++ (if length - 1 - position < p.prefetchDistance then [.forward] else [])

/-- Whether a list waits for anything it has asked for. -/
inductive FetchState where
  | idle
  | pending
  /-- The session has finished, answers are dropped. -/
  | abandoned
deriving DecidableEq, Repr, Inhabited

namespace FetchState

/-- The name of a state. -/
def name : FetchState → String
  | idle => "idle"
  | pending => "fetchPending"
  | abandoned => "abandoned"

/-- The state with a given name. -/
def ofName? (name : String) : Option FetchState :=
  [idle, pending, abandoned].find? (·.name = name)

theorem ofName?_name (s : FetchState) : ofName? s.name = some s := by cases s <;> rfl

/-- A state as JSON. -/
def toJson (s : FetchState) : Json := .str s.name

/-- A state from JSON. -/
def ofJson? (j : Json) : Option FetchState := j.name?.bind ofName?

end FetchState

end ListSync
