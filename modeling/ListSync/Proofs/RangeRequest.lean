import ListSync.Fetch.Request
import ListSync.Proofs.Window
import Mathlib.Algebra.Order.BigOperators.Group.List
import Mathlib.Algebra.Order.Group.Int

/-!
# Requests for ranges and the ranges themselves

A range that is being fetched is noted twice, as a span in the window and as a start and a count
with the request. When items before it come or go, both move, each in its own way. They stay the
same unless one of them runs into an end of the index range and the other does not: the span never
ends behind the request then (`Request.Ranged.shift_spec`), so that the two can be told apart by
where they end (`eq_of_perm_of_le`).
-/

namespace ListSync

/-- Two readings of a list of which one never exceeds the other are the same everywhere, if they are
the same up to order. -/
theorem eq_of_perm_of_le {α : Type} {l : List α} {f g : α → Int} (le : ∀ a ∈ l, f a ≤ g a)
    (h : (l.map f).Perm (l.map g)) : ∀ a ∈ l, f a = g a := by
  intro a ha
  rcases Int.lt_or_eq_of_le (le a ha) with lt | eq
  · have less : (l.map f).sum < (l.map g).sum := List.sum_lt_sum f g le ⟨a, ha, lt⟩
    rw [h.sum_eq] at less
    exact absurd less (Int.lt_irrefl _)
  · exact eq

theorem Span.ext {a b : Span} (start : a.start = b.start) (stop : a.stop = b.stop) : a = b := by
  cases a
  cases b
  simp_all

namespace Request

/-- The range a request asks for, an empty one if it asks for a page. -/
def span (r : Request) : Span := r.span?.getD ⟨0, 0⟩

/-- A request asks for a range of at least one item, and not of more than there are positive
indices. -/
structure Ranged (r : Request) (start : Int) (count : Nat) : Prop where
  target : r.target = .range start count
  start : Index.InRange start
  count_pos : 0 < count
  count_le : (count : Int) ≤ Index.greatest

/-- Whether a request still asks for what its span covers once it is moved: unless it moves back,
both keep off the ends of the index range. -/
def shiftsExactly (r : Request) (stop delta : Int) : Bool :=
  match r.target with
  | .range start count => delta < 0 → stop ≤ start →
    Index.least ≤ start + delta ∧ start + count ≤ Index.greatest
  | .page .. => true

variable {r : Request} {start : Int} {count : Nat}

theorem span_of_span? {asked : Span} (h : r.span? = some asked) : r.span = asked := by
  rw [span, h, Option.getD_some]

/-- A request that is ranged asks for the range from its begin to its bent end. -/
theorem Ranged.span? (h : r.Ranged start count) :
    r.span? = some ⟨start, Index.add start count⟩ := by
  simp only [Request.span?, h.target, Index.wrapCount_eq_self h.count_le]

theorem Ranged.span (h : r.Ranged start count) : r.span = ⟨start, Index.add start count⟩ :=
  span_of_span? h.span?

/-- A request that is ranged stays so as it moves along with a batch. -/
theorem Ranged.shift (h : r.Ranged start count) (stop delta : Int) :
    (r.shift stop delta).Ranged (if stop ≤ start then Index.add start delta else start) count := by
  have target : (r.shift stop delta).target
      = .range (if stop ≤ start then Index.add start delta else start) count := by
    simp only [Request.shift, h.target]
    by_cases behind : stop ≤ start
    · rw [if_pos behind, if_pos behind]
    · rw [if_neg behind, if_neg behind, h.target]
  refine ⟨target, ?_, h.count_pos, h.count_le⟩
  split
  · exact Index.inRange_add ..
  · exact h.start

/-- Where the span of a request ends when it is moved, and where the moved request does. -/
theorem Ranged.shift_spec (h : r.Ranged start count) (stop delta : Int) :
    let moved := if stop ≤ r.span.start then r.span.shift delta else r.span
    moved.start = (r.shift stop delta).span.start
      ∧ moved.stop ≤ (r.shift stop delta).span.stop
      ∧ (moved.stop = (r.shift stop delta).span.stop ↔ r.shiftsExactly stop delta) := by
  have exact_iff : r.shiftsExactly stop delta ↔ (delta < 0 → stop ≤ start →
      Index.least ≤ start + delta ∧ start + count ≤ Index.greatest) := by
    rw [shiftsExactly, h.target]
    exact decide_eq_true_iff
  have positive := h.count_pos
  have fits := h.count_le
  have inRange := h.start
  rw [exact_iff, (h.shift stop delta).span, h.span]
  by_cases behind : stop ≤ start
  · simp only [behind, if_true, Span.shift, true_and, forall_const]
    simp only [Index.add, Index.clamp, Index.InRange, Index.least, Index.greatest] at *
    omega
  · simp [behind]

end Request

/-- Requests that ask for ranges have the spans of these ranges. -/
theorem filterMap_span? {rs : List Request}
    (h : ∀ r ∈ rs, ∃ start count, r.target = .range start count) :
    rs.filterMap Request.span? = rs.map Request.span := by
  have spans : ∀ r ∈ rs, r.span? = (some ∘ Request.span) r := by
    intro r hr
    obtain ⟨start, count, target⟩ := h r hr
    simp only [Function.comp, Request.span, Request.span?, target, Option.getD_some]
  rw [List.filterMap_congr spans, List.filterMap_eq_map]

/-- The spans of requests for given ranges, where a count is read as an index. -/
theorem map_span_of_targets {rs : List Request} {ranges : List Span}
    (targets : rs.map (·.target) = ranges.map fun range => .range range.start range.length) :
    rs.map Request.span = ranges.map fun range =>
      ⟨range.start, Index.add range.start (Index.wrapCount range.length)⟩ := by
  -- the span of a request is a matter of its target alone
  have spans : rs.map Request.span = (rs.map (·.target)).map fun target =>
      (Request.mk "" "" target).span := by
    rw [List.map_map]
    rfl
  rw [spans, targets, List.map_map]
  rfl

/-- The span of a request never ends behind the range it is issued for, and where that has no more
items than there are positive indices they are the same. -/
theorem stop_of_length {range : Span} (start : Index.InRange range.start)
    (stop : Index.InRange range.stop) (proper : range.start < range.stop) :
    Index.add range.start (Index.wrapCount range.length) ≤ range.stop
      ∧ (Index.add range.start (Index.wrapCount range.length) = range.stop
        ↔ (range.length : Int) ≤ Index.greatest) := by
  have length : (range.length : Int) = range.stop - range.start := by
    rw [Span.length]
    omega
  by_cases fits : (range.length : Int) ≤ Index.greatest
  · rw [Index.wrapCount_eq_self fits, length, Index.add_eq_add (by simpa using stop)]
    simp only [length] at fits
    omega
  -- a count beyond the positive indices wraps to a negative one
  · have counted : range.length ≤ maxCount := by
      simp only [Index.InRange, Index.least, Index.greatest, maxCount] at *
      omega
    have wrapped := Index.wrapCount_neg (Int.not_le.1 fits) counted
    simp only [Index.add, Index.clamp, Index.InRange, Index.least, Index.greatest] at *
    omega

end ListSync
