import ListSync.Fetch.Plan
import ListSync.Proofs.Window
import Mathlib.Data.List.Pairwise

/-!
# Planned ranges

An access wants at most one range before the loaded items and one behind them
(`IndexWindow.wanted_spec`). So a planned range borders on the loaded items (`borders_of_plan`),
keeps within the bounds (`bounded_of_plan`), and no index lies in it and in another range that is
planned or in flight (`apart_plan`). An index that is missing is reached by the one range that is
wanted for it, and that range is a chunk long where nothing ends it earlier (`fillsGap_rangeBefore`,
`fillsGap_rangeBehind`). Once the planned ranges are in flight, nothing is left to plan
(`plan_marked`).
-/

namespace ListSync

/-- No index lies in both spans. -/
def Span.Apart (a b : Span) : Prop := ∀ i, a.Covers i → ¬b.Covers i

/-- Two spans are apart when one of them is empty or ends before the other begins. -/
theorem Span.apart_iff {a b : Span} :
    a.Apart b ↔ (a.stop ≤ a.start ∨ b.stop ≤ b.start) ∨ a.stop ≤ b.start ∨ b.stop ≤ a.start := by
  simp only [Span.Apart, Span.Covers]
  constructor
  · intro h
    by_contra both
    exact h (max a.start b.start) ⟨by omega, by omega⟩ ⟨by omega, by omega⟩
  · rintro h i ha hb
    omega

instance (a b : Span) : Decidable (a.Apart b) := decidable_of_iff' _ Span.apart_iff

theorem Span.Apart.symm {a b : Span} (h : a.Apart b) : b.Apart a := fun i hb ha => h i ha hb

namespace IndexWindow

variable {w : IndexWindow} {p : Policy} {i : Int} {range : Span}

/-- An access wants at most one range before the loaded items and one behind them. -/
theorem wanted_spec (w : IndexWindow) (p : Policy) (inRange : Index.InRange i) :
    ∃ before behind : Option Int, (∀ j ∈ before, Index.InRange j)
      ∧ w.wanted p i = (before.map (w.rangeBefore p)).toList
        ++ (behind.map (w.rangeBehind p)).toList := by
  have earlier : Index.InRange (Index.sub w.start 1) := Index.inRange_sub ..
  unfold wanted
  split
  -- a loaded index may want both, as it may be near to both edges
  · unfold prefetch
    dsimp only
    split
    · exact ⟨none, none, by simp, rfl⟩
    · refine ⟨if i - w.start < Index.wrapCount p.prefetchDistance ∧ ¬w.atStart
          then some (Index.sub w.start 1) else none,
        if w.stop - 1 - i < Index.wrapCount p.prefetchDistance ∧ ¬w.atEnd
          then some w.stop else none, ?_, ?_⟩
      · intro j hj
        obtain ⟨-, same⟩ := Option.ite_none_right_eq_some.1 hj
        exact Option.some.inj same ▸ earlier
      · rw [apply_ite (Option.map _), apply_ite (Option.map _), apply_ite Option.toList,
          apply_ite Option.toList]
        simp only [Option.map_some, Option.map_none, Option.toList_some, Option.toList_none]
  · split
    · by_cases before : i < w.start
      · rw [if_pos before]
        exact ⟨some i, none, by simpa using inRange, rfl⟩
      · rw [if_neg before]
        exact ⟨none, some i, by simp, rfl⟩
    · exact ⟨none, none, by simp, rfl⟩

/-- A planned range is one before the loaded items or one behind them. -/
theorem mem_plan (inRange : Index.InRange i) (h : range ∈ w.plan p i) :
    (∃ j, Index.InRange j ∧ range = w.rangeBefore p j) ∨ ∃ j, range = w.rangeBehind p j := by
  obtain ⟨wanted, -⟩ := List.mem_filter.1 h
  obtain ⟨before, behind, earlier, all⟩ := w.wanted_spec p inRange
  simp only [all, List.mem_append, Option.mem_toList,
    Option.map_eq_some_iff] at wanted
  rcases wanted with ⟨j, hj, rfl⟩ | ⟨j, -, rfl⟩
  · exact .inl ⟨j, earlier j hj, rfl⟩
  · exact .inr ⟨j, rfl⟩

/-- No planned range is empty. -/
theorem nonempty_of_plan (h : range ∈ w.plan p i) : range.start < range.stop := by
  have proper := (List.mem_filter.1 h).2
  simp only [Bool.and_eq_true, decide_eq_true_eq] at proper
  exact proper.1

/-- A planned range is not empty and lies in the index range. -/
theorem inRange_of_plan (start : Index.InRange w.start) (inRange : Index.InRange i)
    (h : range ∈ w.plan p i) :
    Index.InRange range.start ∧ Index.InRange range.stop ∧ range.start < range.stop := by
  have nonempty := nonempty_of_plan h
  rcases mem_plan inRange h with ⟨j, hj, rfl⟩ | ⟨j, rfl⟩
  · have chunk := Index.inRange_sub w.start p.chunkSize
    simp only [rangeBefore] at nonempty ⊢
    split at nonempty <;> simp only [Index.InRange] at * <;> omega
  · have chunk := Index.inRange_add w.stop p.chunkSize
    have one := Index.inRange_add j 1
    have stop : Index.InRange w.stop := Index.inRange_add ..
    simp only [rangeBehind] at nonempty ⊢
    split at nonempty <;> simp only [Index.InRange] at * <;> omega

/-- A planned range ends where the loaded items begin, or begins where they end. -/
theorem borders_of_plan (inRange : Index.InRange i) (h : range ∈ w.plan p i) :
    range.stop = w.start ∨ range.start = w.stop := by
  rcases mem_plan inRange h with ⟨j, -, rfl⟩ | ⟨j, rfl⟩
  · exact .inl rfl
  · exact .inr rfl

/-- A planned range keeps within the bounds that the loaded items keep within. -/
theorem within_of_plan {lo hi : Int} (inRange : Index.InRange i) (minimum : w.minimum = some lo)
    (maximum : w.maximum = some hi) (below : lo ≤ w.stop) (beyond : w.start ≤ hi)
    (h : range ∈ w.plan p i) : lo ≤ range.start ∧ range.stop ≤ hi := by
  rcases mem_plan inRange h with ⟨j, -, rfl⟩ | ⟨j, rfl⟩
  · rw [rangeBefore, minimum]
    exact ⟨Int.le_max_right .., beyond⟩
  · rw [rangeBehind, maximum]
    exact ⟨below, Int.min_le_right ..⟩

/-- A planned range keeps within the bounds of a valid window, as far as they are known. -/
theorem bounded_of_plan (valid : w.Valid) (start : w.start ≤ Index.greatest)
    (inRange : Index.InRange i) (h : range ∈ w.plan p i) :
    (∀ lo ∈ w.minimum, lo ≤ range.start) ∧ ∀ hi ∈ w.maximum, range.stop ≤ hi := by
  have ordered := w.start_le_stop start
  rcases mem_plan inRange h with ⟨j, -, rfl⟩ | ⟨j, rfl⟩
  · refine ⟨?_, fun hi known => Int.le_trans ordered (valid.le_maximum hi known)⟩
    intro lo known
    rw [rangeBefore, Option.mem_def.1 known]
    exact Int.le_max_right ..
  · refine ⟨fun lo known => Int.le_trans (valid.minimum_le lo known) ordered, ?_⟩
    intro hi known
    rw [rangeBehind, Option.mem_def.1 known]
    exact Int.min_le_right ..

/-- A planned range ends before any range in flight begins, or begins behind it. -/
theorem misses_of_plan (h : range ∈ w.plan p i) {flying : Span} (hf : flying ∈ w.inFlight) :
    range.stop ≤ flying.start ∨ flying.stop ≤ range.start := by
  have checked := (List.mem_filter.1 h).2
  simp only [overlapsInFlight, Bool.and_eq_true, Bool.not_eq_true', List.any_eq_false] at checked
  have misses := checked.2 flying hf
  simp only [Span.overlaps, Bool.and_eq_true, decide_eq_true_eq] at misses
  omega

/-- No index lies in two planned ranges. -/
theorem pairwise_plan (start : w.start ≤ Index.greatest) (inRange : Index.InRange i) :
    (w.plan p i).Pairwise Span.Apart := by
  refine List.Pairwise.filter _ ?_
  obtain ⟨before, behind, -, all⟩ := w.wanted_spec p inRange
  have single (o : Option Span) : o.toList.Pairwise Span.Apart := by
    cases o with
    | none => exact List.Pairwise.nil
    | some range => exact List.pairwise_singleton ..
  rw [all]
  refine List.pairwise_append.2 ⟨single _, single _, ?_⟩
  -- the one ends where the loaded items begin, and the other begins where they end
  simp only [Option.mem_toList, Option.map_eq_some_iff]
  rintro a ⟨j, -, rfl⟩ b ⟨k, -, rfl⟩
  exact Span.apart_iff.2 (.inr (.inl (w.start_le_stop start)))

/-- No index lies in a planned range and in one that is in flight or planned beside it. -/
theorem apart_plan (start : w.start ≤ Index.greatest) (inRange : Index.InRange i)
    (apart : w.inFlight.Pairwise Span.Apart) :
    (w.inFlight ++ w.plan p i).Pairwise Span.Apart := by
  refine List.pairwise_append.2 ⟨apart, pairwise_plan start inRange, ?_⟩
  intro flying hf range hr
  have misses := misses_of_plan hr hf
  exact Span.apart_iff.2 (by omega)

/-- A planned range reaches into none of the loaded items. -/
theorem apart_loaded_of_plan (inRange : Index.InRange i) (h : range ∈ w.plan p i) :
    range.Apart w.span := by
  have beside := borders_of_plan inRange h
  exact Span.apart_iff.2 (.inr (by simp only [span]; omega))

/-! ## Gaps -/

/-- A range leads from the loaded items to an index that is missing, and is a chunk long unless it
ends earlier, at a known bound or at the last index there is. -/
structure FillsGap (w : IndexWindow) (p : Policy) (i : Int) (range : Span) : Prop where
  covers : range.Covers i
  before : i < w.start → range.stop = w.start
    ∧ (p.chunkSize ≤ range.length ∨ w.minimum = some range.start ∨ range.start = Index.least)
  behind : w.stop ≤ i → range.start = w.stop
    ∧ (p.chunkSize ≤ range.length ∨ w.maximum = some range.stop ∨ range.stop = Index.greatest)

/-- The range planned before the loaded items fills the gap up to them. -/
theorem fillsGap_rangeBefore (start : w.start ≤ Index.greatest) (inRange : Index.InRange i)
    (inBounds : w.inBounds i) (before : i < w.start) : w.FillsGap p i (w.rangeBefore p i) := by
  have ordered := w.start_le_stop start
  have first := inRange.1
  have lower := ((w.inBounds_iff i).1 inBounds).1
  refine ⟨?_, fun _ => ⟨rfl, ?_⟩, fun behind => by omega⟩
  · refine ⟨?_, before⟩
    rw [rangeBefore]
    dsimp only
    split
    · rename_i lo known
      have := lower lo known
      omega
    · exact Int.min_le_left ..
  · -- the range begins a chunk before the loaded items, or nothing before its start has an index
    have chunk : (Index.sub w.start p.chunkSize : Int) + p.chunkSize ≤ w.start
        ∨ Index.sub w.start p.chunkSize = Index.least := by
      simp only [Index.sub, Index.clamp, Index.least, Index.greatest] at *
      omega
    rw [rangeBefore]
    dsimp only [Span.length]
    split
    · rename_i lo known
      rw [known, Option.some_inj]
      omega
    · omega

/-- The range planned behind the loaded items fills the gap from them on. -/
theorem fillsGap_rangeBehind (start : Index.InRange w.start) (inRange : Index.InRange i)
    (inBounds : w.inBounds i) (last : i < Index.greatest) (behind : w.stop ≤ i) :
    w.FillsGap p i (w.rangeBehind p i) := by
  have ordered := w.start_le_stop start.2
  have upper := ((w.inBounds_iff i).1 inBounds).2
  have next : Index.add i 1 = i + 1 := Index.add_eq_add ⟨by have := inRange.1; omega, by omega⟩
  refine ⟨?_, fun before => by omega, fun _ => ⟨rfl, ?_⟩⟩
  · refine ⟨behind, ?_⟩
    rw [rangeBehind, next]
    dsimp only
    split
    · rename_i hi known
      have := upper hi known
      omega
    · omega
  -- the range ends a chunk behind the loaded items, or nothing behind its end has an index
  · have chunk : w.stop + p.chunkSize ≤ (Index.add w.stop p.chunkSize : Int)
        ∨ Index.add w.stop p.chunkSize = Index.greatest := by
      simp only [Index.add, Index.clamp, Index.least, Index.greatest, Index.InRange] at *
      omega
    rw [rangeBehind, next]
    dsimp only [Span.length]
    split
    · rename_i hi known
      rw [known, Option.some_inj]
      omega
    · omega

/-- For an index that is missing, the range that fills the gap is planned, unless it reaches into
one in flight. -/
theorem plan_of_missing (start : Index.InRange w.start) (inRange : Index.InRange i)
    (inBounds : w.inBounds i) (missing : ¬w.span.Covers i) (last : i < Index.greatest) :
    ∃ range, w.FillsGap p i range ∧ (w.plan p i = [range]
      ∨ w.plan p i = [] ∧ ∃ flying ∈ w.inFlight,
        range.start < flying.stop ∧ flying.start < range.stop) := by
  have absent : w.contains i = false := by
    simpa using fun loaded => missing ((w.contains_iff i).1 loaded)
  -- the planned range is the one on the side of the index, kept unless something in flight overlaps
  -- it
  have wanted : w.wanted p i = [if i < w.start then w.rangeBefore p i else w.rangeBehind p i] := by
    simp [IndexWindow.wanted, needsFetch, absent, inBounds]
  have fills : w.FillsGap p i (if i < w.start then w.rangeBefore p i else w.rangeBehind p i) := by
    by_cases before : i < w.start
    · rw [if_pos before]
      exact fillsGap_rangeBefore start.2 inRange inBounds before
    · rw [if_neg before]
      have outside : ¬(w.start ≤ i ∧ i < w.stop) := missing
      exact fillsGap_rangeBehind start inRange inBounds last (by omega)
  have nonempty := Int.lt_of_le_of_lt fills.covers.1 fills.covers.2
  refine ⟨_, fills, ?_⟩
  rw [plan, wanted]
  generalize (if i < w.start then w.rangeBefore p i else w.rangeBehind p i) = range at nonempty
  cases blocked : w.overlapsInFlight range with
  | false => exact .inl (by simp [nonempty, blocked])
  | true =>
    obtain ⟨flying, hf, overlaps⟩ := List.any_eq_true.1 blocked
    simp only [Span.overlaps, Bool.and_eq_true, decide_eq_true_eq] at overlaps
    exact .inr ⟨by simp [blocked], flying, hf, overlaps⟩

/-- Nothing is planned for an index outside the bounds. -/
theorem plan_of_outside (valid : w.Valid) (outside : w.inBounds i = false) : w.plan p i = [] := by
  have absent : w.contains i = false := by
    cases loaded : w.contains i with
    | false => rfl
    | true =>
      -- what is loaded lies within the bounds
      obtain ⟨low, high⟩ := (w.contains_iff i).1 loaded
      have inside : w.inBounds i := (w.inBounds_iff i).2
        ⟨fun lo known => Int.le_trans (valid.minimum_le lo known) low,
          fun hi known => Int.lt_of_lt_of_le high (valid.le_maximum hi known)⟩
      rw [outside] at inside
      cases inside
  simp [plan, IndexWindow.wanted, needsFetch, absent, outside]

/-- Once the planned ranges are in flight, nothing more is planned for the same index. -/
theorem plan_marked (w : IndexWindow) (p : Policy) (i : Int) :
    ({ w with inFlight := w.inFlight ++ w.plan p i } : IndexWindow).plan p i = [] := by
  rw [plan, List.filter_eq_nil_iff]
  intro range wanted free
  simp only [overlapsInFlight, List.any_append, Bool.and_eq_true, Bool.not_eq_true',
    Bool.or_eq_false_iff, decide_eq_true_eq] at free
  obtain ⟨nonempty, before, added⟩ := free
  -- a range that was free before was planned, and so is in flight now itself
  have planned : range ∈ w.plan p i :=
    List.mem_filter.2 ⟨wanted, by simp [overlapsInFlight, nonempty, before]⟩
  have self := List.any_eq_false.1 added range planned
  simp [Span.overlaps, nonempty] at self

end IndexWindow

end ListSync
