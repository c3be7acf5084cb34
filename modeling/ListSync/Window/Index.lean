import ListSync.Kind

/-!
# Windows of index lists

The part of an index list that is loaded, the bounds of the whole list as far as they are known, and
the ranges that are being fetched. `IndexWindow.Valid` is the law of the bounds:
`minimum ≤ start ≤ end ≤ maximum` for whichever bounds are known, and the end is an index.
`IndexWindow.fault?` says how a window breaks it, and by `fault?_eq_none_iff` it finds every breach.

`IndexWindow.adjust` follows a change of the loaded items, `planMerge` and `merge` follow a fetched
range that is put to the loaded items.
-/

namespace ListSync

/-- The indices from `start` up to, but without, `stop`. -/
structure Span where
  start : Int
  stop : Int
deriving DecidableEq, Repr, Inhabited

namespace Span

/-- The distance between the ends. -/
def length (s : Span) : Nat := (s.stop - s.start).natAbs

/-- Whether two spans reach into each other. -/
def overlaps (a b : Span) : Bool := a.start < b.stop && b.start < a.stop

/-- Whether an index lies in a span. -/
def Covers (s : Span) (i : Int) : Prop := s.start ≤ i ∧ i < s.stop

/-- Two spans that are not empty overlap exactly when some index lies in both. -/
theorem overlaps_iff {a b : Span} (ha : a.start < a.stop) (hb : b.start < b.stop) :
    a.overlaps b ↔ ∃ i, a.Covers i ∧ b.Covers i := by
  simp only [overlaps, Covers, Bool.and_eq_true, decide_eq_true_eq]
  constructor
  · intro h
    exact ⟨max a.start b.start, by omega, by omega⟩
  · rintro ⟨i, hi, hi'⟩
    omega

/-- Both ends moved, each stopping at the ends of the index range. -/
def shift (s : Span) (d : Int) : Span := ⟨Index.add s.start d, Index.add s.stop d⟩

end Span

/-- Why a window or an answer to a fetch is not consistent. -/
inductive RangeFault where
  /-- The end of the loaded items is no index. -/
  | overflow (count : Nat) (start : Int)
  /-- The bounds are in the wrong order. -/
  | boundsCrossed (minimum maximum : Int)
  /-- The loaded items begin before the list does. -/
  | startBelow (start minimum : Int)
  /-- The loaded items end after the list does. -/
  | endBeyond (stop maximum : Int)
  /-- The fetched items neither touch nor overlap the loaded ones. -/
  | detached (fetched loaded : Span)
deriving DecidableEq, Repr

namespace RangeFault

/-- The wording of a fault. -/
def message : RangeFault → String
  | overflow count start => s!"{count} items from startIndex {start} overflow the index range"
  | boundsCrossed minimum maximum =>
    s!"minimumInclusiveIndex {minimum} exceeds maximumExclusiveIndex {maximum}"
  | startBelow start minimum => s!"startIndex {start} is below minimumInclusiveIndex {minimum}"
  | endBeyond stop maximum =>
    s!"loaded window ends at {stop} beyond maximumExclusiveIndex {maximum}"
  | detached fetched loaded =>
    s!"response [{fetched.start}, {fetched.stop}) is not contiguous with loaded window "
      ++ s!"[{loaded.start}, {loaded.stop})"

end RangeFault

/-- The loaded window of an index list. -/
structure IndexWindow where
  /-- The least index of the whole list, if known. -/
  minimum : Option Int
  /-- The index behind the last of the whole list, if known. -/
  maximum : Option Int
  /-- The index of the first loaded item. -/
  start : Int
  /-- The number of loaded items. -/
  count : Nat
  /-- The ranges being fetched, oldest first. -/
  inFlight : List Span := []
deriving DecidableEq, Repr, Inhabited

namespace IndexWindow

/-! ## The loaded range and its bounds -/

/-- The index behind the last loaded item, stopping at the greatest index. -/
def stop (w : IndexWindow) : Int := Index.add w.start (Index.ofCount w.count)

theorem start_le_stop (w : IndexWindow) (h : w.start ≤ Index.greatest) : w.start ≤ w.stop := by
  simp only [stop, Index.add, Index.clamp, Index.ofCount, Index.least, Index.greatest] at *
  omega

/-- The loaded range. -/
def span (w : IndexWindow) : Span := ⟨w.start, w.stop⟩

/-- Known bounds in the wrong order. -/
def crossing? (w : IndexWindow) : Option RangeFault :=
  w.minimum.bind fun lo => w.maximum.bind fun hi =>
    if hi < lo then some (.boundsCrossed lo hi) else none

/-- A start before the known minimum. -/
def underrun? (w : IndexWindow) : Option RangeFault :=
  w.minimum.bind fun lo => if w.start < lo then some (.startBelow w.start lo) else none

/-- An end beyond the known maximum. -/
def overrun? (w : IndexWindow) : Option RangeFault :=
  w.maximum.bind fun hi => if hi < w.stop then some (.endBeyond w.stop hi) else none

/-- The first way in which a window breaks the law of the bounds. -/
def fault? (w : IndexWindow) : Option RangeFault :=
  if Index.greatest < w.count ∨ Index.greatest < w.start + w.count then
    some (.overflow w.count w.start)
  else (w.crossing?.or w.underrun?).or w.overrun?

/-- The law of the bounds. -/
structure Valid (w : IndexWindow) : Prop where
  count_le : (w.count : Int) ≤ Index.greatest
  end_le : w.start + w.count ≤ Index.greatest
  minimum_le : ∀ lo ∈ w.minimum, lo ≤ w.start
  le_maximum : ∀ hi ∈ w.maximum, w.stop ≤ hi

/-- A window has no fault exactly when it keeps the law of the bounds. That known bounds are in the
right order follows from the rest. -/
theorem fault?_eq_none_iff (w : IndexWindow) : w.fault? = none ↔ w.Valid := by
  have inOrder : (w.count : Int) ≤ Index.greatest ∧ w.start + w.count ≤ Index.greatest →
      w.start ≤ w.stop := fun h => start_le_stop w (by omega)
  have below : w.underrun? = none ↔ ∀ lo ∈ w.minimum, lo ≤ w.start := by
    simp [underrun?, Option.bind_eq_none_iff]
  have beyond : w.overrun? = none ↔ ∀ hi ∈ w.maximum, w.stop ≤ hi := by
    simp [overrun?, Option.bind_eq_none_iff]
  have crossing : w.crossing? = none ↔ ∀ lo ∈ w.minimum, ∀ hi ∈ w.maximum, lo ≤ hi := by
    simp [crossing?, Option.bind_eq_none_iff]
  unfold fault?
  split
  · simp only [reduceCtorEq, false_iff]
    rintro ⟨_, _, _, _⟩
    omega
  · simp only [Option.or_eq_none_iff, below, beyond, crossing]
    constructor
    · rintro ⟨⟨_, lo⟩, hi⟩
      exact ⟨by omega, by omega, lo, hi⟩
    · rintro ⟨count, stop, lo, hi⟩
      refine ⟨⟨fun l hl h hh => ?_, lo⟩, hi⟩
      -- crossed bounds would leave no room for the window between them
      have := lo l hl
      have := hi h hh
      have := inOrder ⟨count, stop⟩
      omega

instance (w : IndexWindow) : Decidable w.Valid := decidable_of_iff _ w.fault?_eq_none_iff

/-- A window with nothing in flight, if it keeps the law of the bounds. -/
def create (start : Int) (count : Nat) (minimum maximum : Option Int) :
    Except RangeFault IndexWindow :=
  let w : IndexWindow := { minimum, maximum, start, count }
  match w.fault? with
  | some fault => .error fault
  | none => .ok w

/-- Whether the item at an index is loaded. -/
def contains (w : IndexWindow) (i : Int) : Bool := w.start ≤ i && i < w.stop

theorem contains_iff (w : IndexWindow) (i : Int) : w.contains i ↔ w.span.Covers i := by
  simp [contains, span, Span.Covers]

/-- Whether the list can have an item at an index. -/
def inBounds (w : IndexWindow) (i : Int) : Bool := w.minimum.all (· ≤ i) && w.maximum.all (i < ·)

theorem inBounds_iff (w : IndexWindow) (i : Int) :
    w.inBounds i ↔ (∀ lo ∈ w.minimum, lo ≤ i) ∧ ∀ hi ∈ w.maximum, i < hi := by
  simp [inBounds, Option.all_eq_true]

/-- Whether an index is not loaded but can exist. -/
def needsFetch (w : IndexWindow) (i : Int) : Bool := !w.contains i && w.inBounds i

/-- Whether nothing comes before the loaded items. -/
def atStart (w : IndexWindow) : Bool := w.minimum = some w.start

/-- Whether nothing comes after the loaded items. -/
def atEnd (w : IndexWindow) : Bool := w.maximum = some w.stop

/-- The position of an index among the loaded items. -/
def position? (w : IndexWindow) (i : Int) : Option Nat :=
  if w.contains i then some (i - w.start).toNat else none

/-! ## Ranges in flight -/

/-- Whether a range overlaps one that is being fetched. -/
def overlapsInFlight (w : IndexWindow) (s : Span) : Bool := w.inFlight.any s.overlaps

/-- Note that a range is being fetched. -/
def mark (w : IndexWindow) (s : Span) : IndexWindow := { w with inFlight := w.inFlight ++ [s] }

/-- Forget every range in flight that equals the given one. -/
def clear (w : IndexWindow) (s : Span) : IndexWindow :=
  { w with inFlight := w.inFlight.filter (· ≠ s) }

/-! ## Following a change of the loaded items -/

/-- Account for loaded items that came or went. The list as a whole changed by as much, so a known
maximum moves along, and so do ranges in flight behind the loaded items. -/
def adjust (w : IndexWindow) (delta : Int) : IndexWindow :=
  { w with
    count := min (w.count + delta).toNat maxCount
    maximum := w.maximum.map (Index.add · delta)
    inFlight := w.inFlight.map fun s => if w.stop ≤ s.start then s.shift delta else s }

/-! ## Following an answer to a fetch -/

/-- A part of the fetched items, by position. -/
structure Slice where
  start : Nat
  stop : Nat
deriving DecidableEq, Repr, Inhabited

/-- The number of items in a slice. -/
def Slice.length (s : Slice) : Nat := s.stop - s.start

/-- The parts of the fetched items that lie before and behind the loaded ones. -/
structure MergePlan where
  front : Slice
  back : Slice
deriving DecidableEq, Repr, Inhabited

/-- The number of fetched items that become loaded. -/
def MergePlan.length (p : MergePlan) : Nat := p.front.length + p.back.length

/-- How `count` items fetched from `start` on extend the window. They must touch or overlap the
loaded items, and those that are loaded already are left as they are. -/
def planMerge (w : IndexWindow) (start : Int) (count : Nat) : Except RangeFault MergePlan :=
  -- more items than there are positive indices make a negative count
  let stop := Index.add start (Index.wrapCount count)
  if 0 < count ∧ (stop < w.start ∨ w.stop < start) then
    .error (.detached ⟨start, stop⟩ w.span)
  else
    .ok {
      front := ⟨0, if start < w.start then Index.toCount (min stop w.start - start) else 0⟩
      back :=
        if w.stop < stop then ⟨(max (Index.sub w.stop start) 0).toNat, count⟩ else ⟨count, count⟩ }

/-- The window after the planned items were put to the loaded ones. -/
def merge (w : IndexWindow) (p : MergePlan) : IndexWindow :=
  { w with
    start := w.start - Index.wrapCount p.front.length
    count := w.count + p.length }

/-- Take over the bounds that came with an answer to a request for `asked`, where there are any. An
empty answer to a request beyond an edge says that the list ends at the edge, if the bound there is
not known. -/
def learnBounds (w : IndexWindow) (asked : Span) (empty : Bool) (minimum maximum : Option Int) :
    Option Int × Option Int :=
  let lo := minimum <|> w.minimum
  let hi := maximum <|> w.maximum
  (lo <|> if empty ∧ asked.stop ≤ w.start then some w.start else none,
    hi <|> if empty ∧ w.stop ≤ asked.start then some w.stop else none)

/-- The plan and the window for `count` items from `start` on that answer a request for `asked`. -/
def absorb (w : IndexWindow) (asked : Span) (start : Int) (count : Nat)
    (minimum maximum : Option Int) : Except RangeFault (MergePlan × IndexWindow) := do
  let plan ← w.planMerge start count
  let (minimum, maximum) := w.learnBounds asked (count = 0) minimum maximum
  let next := { w.merge plan with minimum, maximum }
  match next.fault? with
  | some fault => .error fault
  | none => .ok (plan, next)

/-! ## JSON -/

/-- A bound that may be unknown. -/
def boundJson : Option Int → Json
  | some i => Json.ofInt i
  | none => .null

/-- The members of a window. What is in flight is not part of its JSON form. -/
def members (w : IndexWindow) : List (String × Json) :=
  [("minimumInclusiveIndex", boundJson w.minimum), ("maximumExclusiveIndex", boundJson w.maximum),
    ("startIndex", Json.ofInt w.start), ("loadedCount", Json.ofNat w.count)]

/-- A window as JSON. -/
def toJson (w : IndexWindow) : Json := .obj w.members

/-- The fields of a window. -/
def fields : List Field :=
  [.fixed "minimumInclusiveIndex", .fixed "maximumExclusiveIndex", .fixed "startIndex",
    .fixed "loadedCount"]

/-- What the text of a window is read for. -/
def schema : Schema := .record fields

/-- A window from JSON, taken as it is. -/
def ofJson? (j : Json) : Option IndexWindow := do
  let r ← j.record? fields
  return {
    minimum := ← r.optional "minimumInclusiveIndex" Json.index?
    maximum := ← r.optional "maximumExclusiveIndex" Json.index?
    start := ← r.required "startIndex" Json.index?
    count := ← r.required "loadedCount" Json.count? }

end IndexWindow

end ListSync
