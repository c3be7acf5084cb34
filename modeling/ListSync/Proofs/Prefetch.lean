import ListSync.Fetch.Plan
import ListSync.Proofs.Window
import Mathlib.Data.List.Basic

/-!
# Fetching ahead

An access that is near to an edge of what is loaded (`Policy.Near`, in exact distances) should fetch
what lies beyond the edge: a chunk (`IndexWindow.chunk`) of an index list that is not known to end
there, the next page of a token list. Token lists always do (`pagesAhead_eq`). Index lists read the
prefetch distance as an index, and so do exactly as long as it is one: of a greater distance nothing
comes but a negative number, which no access is near enough for (`wanted_of_far`). Hence also a
greater distance never fetches less ahead, unless it is that great (`prefetch_exact_iff`).
-/

namespace ListSync

/-- Of the two directions those are left that meet a condition. -/
theorem Direction.filter_both (P : Direction → Prop) [DecidablePred P] :
    [backward, forward].filter P
      = (if P backward then [backward] else []) ++ if P forward then [forward] else [] := by
  by_cases back : P backward <;> by_cases ahead : P forward <;> simp [back, ahead]

namespace Policy

/-- An access is within the prefetch distance of an edge of what is loaded. -/
def Near (p : Policy) (loaded : Span) (i : Int) : Direction → Prop
  | .backward => i - loaded.start < p.prefetchDistance
  | .forward => loaded.stop - 1 - i < p.prefetchDistance

instance (p : Policy) (loaded : Span) (i : Int) : DecidablePred (p.Near loaded i)
  | .backward => inferInstanceAs (Decidable (_ < _))
  | .forward => inferInstanceAs (Decidable (_ < _))

/-- What is near stays near for a greater distance. -/
theorem Near.mono {p q : Policy} (le : p.prefetchDistance ≤ q.prefetchDistance) {loaded : Span}
    {i : Int} {d : Direction} (near : p.Near loaded i d) : q.Near loaded i d := by
  cases d <;> simp only [Near] at near ⊢ <;> omega

/-- The next pages are fetched in the directions of the edges that a position is near to. -/
theorem pagesAhead_eq (p : Policy) {length position : Nat} (loaded : position < length) :
    p.pagesAhead length position
      = [.backward, .forward].filter fun d => p.Near ⟨0, length⟩ position d := by
  have backward : p.Near ⟨0, length⟩ position .backward ↔ position < p.prefetchDistance := by
    simp only [Near]
    omega
  have forward : p.Near ⟨0, length⟩ position .forward
      ↔ length - 1 - position < p.prefetchDistance := by
    simp only [Near]
    omega
  rw [Direction.filter_both]
  simp only [backward, forward, pagesAhead]
  split
  -- no position is near to anything for a distance of zero
  · rw [if_neg (by omega), if_neg (by omega), List.append_nil]
  · rfl

end Policy

namespace IndexWindow

variable {w : IndexWindow} {p q : Policy} {i : Int}

/-- The list is known to end at an edge of its loaded items. -/
def Ends (w : IndexWindow) : Direction → Prop
  | .backward => w.minimum = some w.start
  | .forward => w.maximum = some w.stop

instance (w : IndexWindow) : DecidablePred w.Ends
  | .backward => inferInstanceAs (Decidable (_ = _))
  | .forward => inferInstanceAs (Decidable (_ = _))

/-- As many indices beyond an edge as there are in a chunk, if bounds and index range let them be.
-/
def chunk (w : IndexWindow) (p : Policy) : Direction → Span
  | .backward =>
    ⟨max (w.minimum.getD Index.least) (max Index.least (w.start - p.chunkSize)), w.start⟩
  | .forward =>
    ⟨w.stop, min (w.maximum.getD Index.greatest) (min Index.greatest (w.stop + p.chunkSize))⟩

/-- The directions in which an access should fetch ahead. -/
def ahead (w : IndexWindow) (p : Policy) (i : Int) : List Direction :=
  [.backward, .forward].filter fun d => p.Near w.span i d ∧ ¬w.Ends d

/-- An access to a loaded index fetches ahead what it should: the chunks beyond the edges that it is
near to, apart from those that are empty or overlap a range in flight. -/
structure PlansAhead (w : IndexWindow) (p : Policy) (i : Int) : Prop where
  wanted : w.wanted p i = (w.ahead p i).map (w.chunk p)
  planned : ∀ d, w.chunk p d ∈ w.plan p i ↔ (p.Near w.span i d ∧ ¬w.Ends d)
    ∧ (w.chunk p d).start < (w.chunk p d).stop
    ∧ ∀ flying ∈ w.inFlight, ¬(w.chunk p d).overlaps flying

/-- Something is fetched ahead of an index near an edge, unless the list ends at that edge. -/
theorem mem_ahead {d : Direction} : d ∈ w.ahead p i ↔ p.Near w.span i d ∧ ¬w.Ends d := by
  have listed : d ∈ [Direction.backward, .forward] := by cases d <;> decide
  simp only [ahead, List.mem_filter, listed, true_and, decide_eq_true_eq]

/-! ## Chunks -/

/-- The range before the loaded items is the chunk that lies backward of them. -/
theorem rangeBefore_eq_chunk (size : 0 < p.chunkSize) (start : w.start ≤ Index.greatest) :
    w.rangeBefore p (Index.sub w.start 1) = w.chunk p .backward := by
  have chunk : min (Index.sub w.start 1) (Index.sub w.start p.chunkSize)
      = max Index.least (w.start - p.chunkSize) := by
    simp only [Index.sub, Index.clamp, Index.least, Index.greatest] at *
    omega
  unfold rangeBefore IndexWindow.chunk
  dsimp only
  rw [chunk]
  cases w.minimum with
  | none => simp only [Option.getD_none, Span.mk.injEq, and_true]; omega
  | some lo => simp only [Option.getD_some, Int.max_comm]

/-- The range behind the loaded items is the chunk that lies forward of them. -/
theorem rangeBehind_eq_chunk (size : 0 < p.chunkSize) :
    w.rangeBehind p w.stop = w.chunk p .forward := by
  have stop : Index.InRange w.stop := Index.inRange_add ..
  have chunk : max (Index.add w.stop 1) (Index.add w.stop p.chunkSize)
      = min Index.greatest (w.stop + p.chunkSize) := by
    simp only [Index.add, Index.clamp, Index.InRange, Index.least, Index.greatest] at *
    omega
  unfold rangeBehind IndexWindow.chunk
  dsimp only
  rw [chunk]
  cases w.maximum with
  | none => simp only [Option.getD_none, Span.mk.injEq, true_and]; omega
  | some hi => simp only [Option.getD_some, Int.min_comm]

/-- The chunks beyond the two edges are different ranges. -/
theorem chunk_injective (valid : w.Valid) (start : Index.InRange w.start)
    (loaded : w.span.Covers i) : Function.Injective (w.chunk p) := by
  have before : (w.chunk p .backward).start ≤ w.start := by
    have low : w.minimum.getD Index.least ≤ w.start := by
      cases known : w.minimum with
      | none => exact start.1
      | some lo => exact valid.minimum_le lo known
    have := start.1
    simp only [chunk]
    omega
  have nonempty : w.start < w.stop := Int.lt_of_le_of_lt loaded.1 loaded.2
  have apart : w.chunk p .backward ≠ w.chunk p .forward := by
    intro same
    have : (w.chunk p .backward).start = w.stop := congrArg Span.start same
    omega
  intro d d' same
  cases d <;> cases d'
  · rfl
  · exact absurd same.symm apart
  · exact absurd same apart
  · rfl

/-! ## What a loaded index wants -/

/-- The edges of the loaded items are not further from a loaded index than there are indices. -/
theorem distance_le (start : Index.InRange w.start) (loaded : w.span.Covers i) :
    (0 ≤ i - w.start ∧ i - w.start ≤ Index.greatest)
      ∧ 0 ≤ w.stop - 1 - i ∧ w.stop - 1 - i ≤ Index.greatest := by
  obtain ⟨first, last⟩ := loaded
  simp only [span, stop, Index.add, Index.clamp, Index.ofCount, Index.InRange, Index.least,
    Index.greatest] at *
  omega

/-- Of a loaded index, what is wanted is to fetch ahead. -/
theorem wanted_of_covers (loaded : w.span.Covers i) : w.wanted p i = w.prefetch p i :=
  if_pos ((w.contains_iff i).2 loaded)

/-- With a distance that is an index, the chunks are wanted that should be. -/
theorem wanted_of_near (size : 0 < p.chunkSize) (start : Index.InRange w.start)
    (loaded : w.span.Covers i) (index : (p.prefetchDistance : Int) ≤ Index.greatest) :
    w.wanted p i = (w.ahead p i).map (w.chunk p) := by
  obtain ⟨⟨fromStart, -⟩, fromStop, -⟩ := distance_le start loaded
  have before : p.Near w.span i .backward ↔ i - w.start < p.prefetchDistance := Iff.rfl
  have behind : p.Near w.span i .forward ↔ w.stop - 1 - i < p.prefetchDistance := Iff.rfl
  have first : w.Ends .backward ↔ w.atStart := by simp [Ends, atStart]
  have last : w.Ends .forward ↔ w.atEnd := by simp [Ends, atEnd]
  rw [wanted_of_covers loaded, prefetch, Index.wrapCount_eq_self index,
    rangeBefore_eq_chunk size start.2, rangeBehind_eq_chunk size, ahead, Direction.filter_both,
    List.map_append]
  simp only [before, behind, first, last]
  split
  -- no index is near to anything for a distance of zero
  · rw [if_neg (by omega), if_neg (by omega), List.map_nil, List.append_nil]
  · rw [apply_ite (List.map _), apply_ite (List.map _), List.map_nil, List.map_singleton,
      List.map_singleton]

/-- A greater distance is read as a negative one, and nothing is wanted. -/
theorem wanted_of_far (start : Index.InRange w.start) (loaded : w.span.Covers i)
    (far : Index.greatest < p.prefetchDistance) (fits : p.prefetchDistance ≤ maxCount) :
    w.wanted p i = [] := by
  obtain ⟨⟨fromStart, -⟩, fromStop, -⟩ := distance_le start loaded
  have negative := Index.wrapCount_neg far fits
  rw [wanted_of_covers loaded, prefetch, if_neg (by omega), if_neg (by omega),
    if_neg (by omega), List.append_nil]

/-- Every loaded index is near to both edges for a distance beyond the positive indices. -/
theorem ahead_of_far (start : Index.InRange w.start) (loaded : w.span.Covers i)
    (far : Index.greatest < p.prefetchDistance) :
    w.ahead p i = [] ↔ ∀ d, w.Ends d := by
  obtain ⟨⟨-, fromStart⟩, -, fromStop⟩ := distance_le start loaded
  have near (d : Direction) : p.Near w.span i d := by
    cases d
    · show w.stop - 1 - i < p.prefetchDistance
      omega
    · show i - w.start < p.prefetchDistance
      omega
  rw [List.eq_nil_iff_forall_not_mem]
  refine forall_congr' fun d => ?_
  rw [mem_ahead, and_iff_right (near d), Decidable.not_not]

/-- To want the right chunks is to plan them. -/
theorem plansAhead_iff (valid : w.Valid) (start : Index.InRange w.start)
    (loaded : w.span.Covers i) :
    w.PlansAhead p i ↔ w.wanted p i = (w.ahead p i).map (w.chunk p) := by
  refine ⟨PlansAhead.wanted, fun wanted => ⟨wanted, fun d => ?_⟩⟩
  rw [plan, List.mem_filter, wanted,
    List.mem_map_of_injective (chunk_injective valid start loaded), mem_ahead]
  simp only [overlapsInFlight, Bool.and_eq_true, decide_eq_true_eq, Bool.not_eq_true',
    List.any_eq_false]

/-- Chunks are fetched ahead as they should be exactly when the distance is an index, or when there
are none. -/
theorem plansAhead_iff_distance (size : 0 < p.chunkSize) (fits : p.prefetchDistance ≤ maxCount)
    (valid : w.Valid) (start : Index.InRange w.start) (loaded : w.span.Covers i) :
    w.PlansAhead p i ↔ p.prefetchDistance ≤ Index.greatest ∨ ∀ d, w.Ends d := by
  rw [plansAhead_iff valid start loaded]
  by_cases index : (p.prefetchDistance : Int) ≤ Index.greatest
  · exact iff_of_true (wanted_of_near size start loaded index) (.inl index)
  · have far := Int.not_le.1 index
    rw [or_iff_right index, ← ahead_of_far start loaded far, wanted_of_far start loaded far fits,
      eq_comm, List.map_eq_nil_iff]

/-! ## A greater distance -/

/-- A greater distance fetches ahead at no fewer edges. -/
theorem ahead_sublist (le : p.prefetchDistance ≤ q.prefetchDistance) :
    (w.ahead p i).Sublist (w.ahead q i) := by
  refine List.monotone_filter_right _ fun d found => ?_
  rw [decide_eq_true_eq] at found ⊢
  exact ⟨found.1.mono le, found.2⟩

/-- The distance has no part in what a chunk is. -/
theorem chunk_congr (size : p.chunkSize = q.chunkSize) : w.chunk p = w.chunk q := by
  funext d
  cases d <;> simp only [chunk, size]

/-- With a greater distance nothing is left out that was planned with a smaller one, exactly when
the greater one is an index, or when nothing was planned. -/
theorem plan_sublist_iff (size : 0 < p.chunkSize) (same : p.chunkSize = q.chunkSize)
    (le : p.prefetchDistance ≤ q.prefetchDistance) (fits : q.prefetchDistance ≤ maxCount)
    (start : Index.InRange w.start) (loaded : w.span.Covers i) :
    (w.plan p i).Sublist (w.plan q i)
      ↔ q.prefetchDistance ≤ Index.greatest ∨ w.plan p i = [] := by
  by_cases index : (q.prefetchDistance : Int) ≤ Index.greatest
  · refine iff_of_true ?_ (.inl index)
    refine List.Sublist.filter _ ?_
    rw [wanted_of_near size start loaded (Int.le_trans (Int.ofNat_le.2 le) index),
      wanted_of_near (same ▸ size) start loaded index, chunk_congr same]
    exact (ahead_sublist le).map _
  · rw [or_iff_right index, plan, plan, wanted_of_far start loaded (Int.not_le.1 index) fits,
      List.filter_nil, List.sublist_nil]

end IndexWindow

namespace Policy

/-- A greater distance fetches no fewer pages ahead. -/
theorem pagesAhead_sublist {p q : Policy} (le : p.prefetchDistance ≤ q.prefetchDistance)
    {length position : Nat} (loaded : position < length) :
    (p.pagesAhead length position).Sublist (q.pagesAhead length position) := by
  rw [p.pagesAhead_eq loaded, q.pagesAhead_eq loaded]
  refine List.monotone_filter_right _ fun d found => ?_
  rw [decide_eq_true_eq] at found ⊢
  exact found.mono le

/-- An access to a loaded index of a valid window fetches ahead exactly what is near, in exact
distances, as long as the prefetch distance is an index or nothing lies beyond the edges; an access
to a loaded position of a token list always does. A greater distance then never fetches less
ahead. -/
theorem prefetch_exact_iff {p : Policy} (accepted : p.fault? = none)
    (fits : p.prefetchDistance ≤ maxCount) :
    (∀ (w : IndexWindow) (i : Int), w.Valid → Index.InRange w.start → w.span.Covers i →
      (w.PlansAhead p i ↔ p.prefetchDistance ≤ Index.greatest ∨ ∀ d, w.Ends d))
    ∧ (∀ length position, position < length → ∀ d,
      d ∈ p.pagesAhead length position ↔ p.Near ⟨0, length⟩ position d)
    ∧ ∀ q : Policy, q.chunkSize = p.chunkSize → p.prefetchDistance ≤ q.prefetchDistance →
      q.prefetchDistance ≤ maxCount →
      (∀ (w : IndexWindow) (i : Int), w.Valid → Index.InRange w.start → w.span.Covers i →
        ((w.plan p i).Sublist (w.plan q i)
          ↔ q.prefetchDistance ≤ Index.greatest ∨ w.plan p i = []))
      ∧ ∀ length position, position < length →
        (p.pagesAhead length position).Sublist (q.pagesAhead length position) := by
  have size := (p.fault?_eq_none_iff.1 accepted).1
  refine ⟨fun w i valid start loaded => ?_, fun length position loaded d => ?_,
    fun q same le fits' => ⟨fun w i _ start loaded => ?_, fun length position loaded => ?_⟩⟩
  · exact IndexWindow.plansAhead_iff_distance size fits valid start loaded
  · have listed : d ∈ [Direction.backward, .forward] := by cases d <;> decide
    rw [p.pagesAhead_eq loaded, List.mem_filter, and_iff_right listed, decide_eq_true_eq]
  · exact IndexWindow.plan_sublist_iff size same.symm le fits' start loaded
  · exact pagesAhead_sublist le loaded

/-- Three loaded items of a list that begins with them, and what lies behind them on its way. -/
def threeLoaded : IndexWindow := ⟨some 5, none, 5, 3, [⟨30, 40⟩]⟩

/-- The middle one of three items is near to both edges for a distance of two, and to neither for a
distance of one. Nothing lies before the first edge. -/
theorem prefetch_exact_iff_threeLoaded :
    (⟨10, 2⟩ : Policy).fault? = none ∧ (⟨10, 2⟩ : Policy).prefetchDistance ≤ maxCount
    ∧ threeLoaded.plan ⟨10, 2⟩ 6 = [⟨8, 18⟩] ∧ threeLoaded.plan ⟨10, 1⟩ 6 = []
    ∧ threeLoaded.PlansAhead ⟨10, 2⟩ 6
    ∧ (Direction.backward ∈ (⟨10, 2⟩ : Policy).pagesAhead 3 1
      ↔ (⟨10, 2⟩ : Policy).Near ⟨0, 3⟩ 1 .backward)
    ∧ (threeLoaded.plan ⟨10, 2⟩ 6).Sublist (threeLoaded.plan ⟨10, 4⟩ 6) := by
  have valid : threeLoaded.Valid := by decide
  have start : Index.InRange threeLoaded.start := by decide
  have loaded : threeLoaded.span.Covers 6 := ⟨by decide, by decide⟩
  have exact := prefetch_exact_iff (p := ⟨10, 2⟩) rfl (by decide)
  exact ⟨rfl, by decide, by decide, by decide,
    (exact.1 _ 6 valid start loaded).2 (.inl (by decide)), exact.2.1 3 1 (by decide) _,
    ((exact.2.2 ⟨10, 4⟩ rfl (by decide) (by decide)).1 _ 6 valid start loaded).2
      (.inl (by decide))⟩

/-- A single loaded item of a list without known bounds. -/
def oneLoaded : IndexWindow := ⟨none, none, 5, 1, []⟩

/-- A policy whose distance is greater than any index. -/
def furthest : Policy := ⟨10, 0x8000000000000000⟩

/-- An accepted policy with a distance beyond the positive indices fetches nothing of an index list
ahead, though the item is near to both edges, though both pages of a token list are fetched ahead,
and though a distance of one fetches ahead on both sides. -/
theorem prefetch_lost_furthest :
    furthest.fault? = none ∧ furthest.prefetchDistance ≤ maxCount
    ∧ oneLoaded.Valid ∧ Index.InRange oneLoaded.start ∧ oneLoaded.span.Covers 5
    ∧ furthest.Near oneLoaded.span 5 .backward ∧ furthest.Near oneLoaded.span 5 .forward
    ∧ oneLoaded.plan furthest 5 = [] ∧ ¬oneLoaded.PlansAhead furthest 5
    ∧ oneLoaded.plan ⟨10, 1⟩ 5 = [⟨-5, 5⟩, ⟨6, 16⟩]
    ∧ ¬(oneLoaded.plan ⟨10, 1⟩ 5).Sublist (oneLoaded.plan furthest 5)
    ∧ furthest.pagesAhead 1 0 = [.backward, .forward] :=
  ⟨rfl, by decide, by decide, by decide, ⟨by decide, by decide⟩, by decide, by decide, by decide,
    fun exact => absurd exact.wanted (by decide), by decide, by decide, by decide⟩

end Policy

end ListSync
