import ListSync.Proofs.Payload
import ListSync.Window.Index

/-!
# How the window of an index list moves

A window that keeps the law of the bounds keeps it through an edit exactly when the items that are
then loaded still end at an index (`valid_adjust_iff`). A window that takes up a fetched range is
checked before it is put in place, and its count stays the number of loaded items
(`absorbed_of_absorb`). A range that touches the loaded items and lies within the bounds that come
with it is taken up (`absorb_of_touching`), and of any other range nothing is
(`eq_of_absorb_apart`).
-/

namespace ListSync

namespace Index

/-- A count never wraps to more than the greatest index. -/
theorem wrapCount_le_greatest (n : Nat) : wrapCount n ≤ greatest := by
  unfold wrapCount greatest
  rw [Int.bmod_def]
  split <;> omega

/-- A count never wraps to more than itself. -/
theorem wrapCount_le (n : Nat) : wrapCount n ≤ n := by
  unfold wrapCount
  rw [Int.bmod_def]
  split <;> omega

/-- A count beyond the greatest index becomes negative. -/
theorem wrapCount_neg {n : Nat} (h : greatest < n) (fits : n ≤ maxCount) : wrapCount n < 0 := by
  unfold wrapCount greatest maxCount at *
  rw [Int.bmod_def]
  split <;> omega

/-- A count of nothing does not wrap. -/
theorem wrapCount_zero : wrapCount 0 = 0 := rfl

/-- A count beyond the positive indices wraps to what is left of it below zero. -/
theorem wrapCount_of_greatest_lt {n : Nat} (h : greatest < n) (fits : n ≤ maxCount) :
    wrapCount n = n - maxCount - 1 := by
  unfold wrapCount greatest maxCount at *
  rw [Int.bmod_def]
  split <;> omega

/-- As many items from an index on each have an index, and so has what comes behind them. -/
structure Placed (start : Int) (count : Nat) : Prop where
  first : InRange start
  short : (count : Int) ≤ greatest
  room : start + count ≤ greatest

/-- Items from an index at zero or behind it are placed if the one behind them has an index. -/
theorem Placed.of_low {start : Int} {count : Nat} (low : 0 ≤ start)
    (room : start + count ≤ greatest) : Placed start count := by
  refine ⟨⟨?_, by omega⟩, by omega, room⟩
  simp only [least]
  omega

/-- What comes behind placed items has an index. -/
theorem Placed.inRange {start : Int} {count : Nat} (placed : Placed start count) :
    InRange (start + count) :=
  ⟨Int.le_trans placed.first.1 (by omega), placed.room⟩

/-- A count beyond the positive indices wraps to a negative one, so that the items seem to end at
the least index. -/
theorem stop_of_greatest_lt {start : Int} {count : Nat} (inRange : InRange start)
    (room : start + count ≤ greatest) (far : greatest < count) :
    add start (wrapCount count) = least := by
  have counted : count ≤ maxCount := by
    simp only [InRange, least, greatest, maxCount] at *
    omega
  rw [wrapCount_of_greatest_lt far counted]
  simp only [add, clamp, InRange, least, greatest, maxCount] at *
  omega

end Index

namespace IndexWindow

/-! ## Edits -/

/-- Once `n` items are loaded, the law of the bounds holds exactly when they still end at an
index. -/
theorem valid_adjust_iff {w : IndexWindow} (valid : w.Valid) (start : Index.InRange w.start)
    (n : Nat) :
    (w.adjust (n - w.count)).Valid ↔
      (n : Int) ≤ Index.greatest ∧ w.start + n ≤ Index.greatest := by
  obtain ⟨count_le, end_le, minimum_le, le_maximum⟩ := valid
  have count : (w.adjust (n - w.count)).count = min n maxCount := by
    simp only [adjust]
    congr 1
    omega
  constructor
  · rintro ⟨count_le', end_le', -, -⟩
    rw [count] at count_le' end_le'
    simp only [adjust, maxCount, Index.greatest] at count_le' end_le' ⊢
    omega
  · rintro ⟨fits, ends⟩
    -- the count is not cut off at the greatest one
    have exact : (w.adjust (n - w.count)).count = n := by
      rw [count]
      simp only [maxCount, Index.greatest] at fits ⊢
      omega
    refine ⟨by rwa [exact], by rw [exact]; exact ends, minimum_le, ?_⟩
    -- the maximum moves with the end of the items, and may stop earlier
    rintro hi' h
    obtain ⟨hi, known, rfl⟩ := Option.map_eq_some_iff.1 h
    have before := le_maximum hi known
    simp only [stop, Index.add, Index.clamp, Index.ofCount, adjust, Index.InRange,
      Index.least, Index.greatest] at *
    omega

/-! ## Fetched ranges -/

/-- What is taken of a fetched range: a part that ends before the loaded items begin, and everything
behind them. With the first part the window begins where the fetched range does. -/
structure MergePlan.Fits (w : IndexWindow) (start : Int) (count : Nat) (p : MergePlan) : Prop where
  front_start : p.front.start = 0
  front_stop : p.front.stop ≤ count
  back_stop : p.back.stop = count
  begins : w.start - Index.wrapCount p.front.length = w.start
    ∨ w.start - Index.wrapCount p.front.length = start

/-- A part from zero on has as many items as its end says. -/
theorem Slice.length_mk (n : Nat) : Slice.length ⟨0, n⟩ = n := Nat.sub_zero n

/-- How many fetched items lie before the loaded ones, if the range touches them. -/
theorem front_of_touching {w : IndexWindow} {start : Int} {count : Nat}
    (inRange : Index.InRange w.start) (inRange' : Index.InRange start)
    (touches : 0 < count → w.start ≤ Index.add start (Index.wrapCount count)) {front : Nat}
    (h : front = if start < w.start then
      Index.toCount (min (Index.add start (Index.wrapCount count)) w.start - start) else 0) :
    front ≤ count ∧ (front = 0 ∨ (front : Int) = w.start - start ∧ w.start - start ≤ Index.greatest)
    := by
  by_cases before : start < w.start
  · rw [if_pos before] at h
    -- an empty range need not touch the loaded items, and nothing of it lies before them
    rcases Nat.eq_zero_or_pos count with rfl | some
    · have stop : Index.add start (Index.wrapCount (0 : Nat)) = start := by
        rw [Index.wrapCount_zero]
        simp only [Index.add, Index.clamp, Index.InRange] at *
        omega
      have none : min start w.start - start = 0 := by omega
      rw [stop, none] at h
      exact ⟨Nat.le_of_eq h, .inl h⟩
    · have reaches := touches some
      have whole : min (Index.add start (Index.wrapCount count)) w.start - start
          = w.start - start := by omega
      have wrap_le := Index.wrapCount_le count
      have wrap_fits := Index.wrapCount_le_greatest count
      -- so the count is not so great that it wraps
      have short : w.start - start ≤ Index.wrapCount count := by
        simp only [Index.add, Index.clamp, Index.InRange, Index.least, Index.greatest] at *
        omega
      rw [whole, Index.toCount_eq_toNat (by omega) (by omega)] at h
      exact ⟨by omega, .inr ⟨by omega, by omega⟩⟩
  · rw [if_neg before] at h
    exact ⟨h ▸ Nat.zero_le _, .inl h⟩

/-- What a plan takes of a fetched range are a front before the loaded items and a tail behind them.
-/
theorem fits_of_planMerge {w : IndexWindow} {start : Int} {count : Nat} {p : MergePlan}
    (inRange : Index.InRange w.start) (inRange' : Index.InRange start)
    (h : w.planMerge start count = .ok p) : p.Fits w start count := by
  unfold planMerge at h
  dsimp only at h
  split at h
  · cases h
  · rename_i touches
    cases h
    have reaches : 0 < count → w.start ≤ Index.add start (Index.wrapCount count) := by omega
    obtain ⟨front_le, front⟩ := front_of_touching inRange inRange' reaches rfl
    refine ⟨rfl, front_le, ?_, ?_⟩
    · dsimp only
      split <;> rfl
    · rw [Slice.length_mk]
      rcases front with none | ⟨length, fits⟩
      · rw [none, Index.wrapCount_zero]
        exact .inl (Int.sub_zero _)
      · rw [Index.wrapCount_eq_self (length ▸ fits), length]
        exact .inr (by omega)

/-- A fetched range that is taken up leaves a window that keeps the law of the bounds. It begins at
an index and counts the items that come in. -/
structure Absorbed (w : IndexWindow) (start : Int) (count : Nat) (p : MergePlan)
    (next : IndexWindow) : Prop where
  fits : p.Fits w start count
  valid : next.Valid
  begins : next.start = w.start ∨ next.start = start
  counts : next.count = w.count + p.length

/-- A window that takes up a fetched range is what the plan makes of it, with the bounds that are
then known, and has been checked. -/
theorem eq_of_absorb {w : IndexWindow} {asked : Span} {start : Int} {count : Nat}
    {lo hi : Option Int} {p : MergePlan} {next : IndexWindow}
    (h : w.absorb asked start count lo hi = .ok (p, next)) :
    w.planMerge start count = .ok p ∧ next.fault? = none
      ∧ ∃ minimum maximum, next = { w.merge p with minimum, maximum } := by
  obtain ⟨plan, planned, h⟩ := bind_eq_ok_iff.1 h
  dsimp only at h
  split at h
  · cases h
  · rename_i sound
    cases h
    exact ⟨planned, sound, _, _, rfl⟩

/-- A fetched range that is taken up is absorbed. -/
theorem absorbed_of_absorb {w : IndexWindow} {asked : Span} {start : Int} {count : Nat}
    {lo hi : Option Int} {p : MergePlan} {next : IndexWindow} (inRange : Index.InRange w.start)
    (inRange' : Index.InRange start) (h : w.absorb asked start count lo hi = .ok (p, next)) :
    Absorbed w start count p next := by
  obtain ⟨planned, sound, minimum, maximum, rfl⟩ := eq_of_absorb h
  have fits := fits_of_planMerge inRange inRange' planned
  exact ⟨fits, (fault?_eq_none_iff _).1 sound, fits.begins, rfl⟩

/-- What is in flight stays when a fetched range is taken up. -/
theorem inFlight_of_absorb {w : IndexWindow} {asked : Span} {start : Int} {count : Nat}
    {lo hi : Option Int} {p : MergePlan} {next : IndexWindow}
    (h : w.absorb asked start count lo hi = .ok (p, next)) : next.inFlight = w.inFlight := by
  obtain ⟨-, -, minimum, maximum, rfl⟩ := eq_of_absorb h
  rfl

/-! ## Fetched ranges and the loaded items

Nothing is bent where all items, and what comes behind them, have an index (`Index.Placed`). -/

section

variable {w : IndexWindow} {start : Int} {count : Nat} {n : Int}

/-- A valid window that begins at an index has an index for each of its items. -/
theorem Valid.placed (valid : w.Valid) (start : Index.InRange w.start) :
    Index.Placed w.start w.count :=
  ⟨start, valid.count_le, valid.end_le⟩

/-- The exclusive end of placed items is not bent. -/
theorem stop_eq (placed : Index.Placed w.start w.count) : w.stop = w.start + w.count := by
  rw [stop, Index.ofCount_eq_self placed.short, Index.add_eq_add placed.inRange]

/-- A window that begins at an index does not end behind its items, whatever is bent. -/
theorem stop_le (inRange : Index.InRange w.start) : w.stop ≤ w.start + w.count := by
  simp only [stop, Index.add, Index.clamp, Index.ofCount, Index.InRange, Index.least,
    Index.greatest] at *
  omega

/-- A window between the first index and a known maximum has no fault. -/
theorem fault?_of_known (low : 0 ≤ w.start) (minimum : w.minimum = some 0)
    (maximum : w.maximum = some n) (within : w.start + w.count ≤ n) (room : n ≤ Index.greatest) :
    w.fault? = none := by
  have stop := stop_eq (.of_low low (Int.le_trans within room))
  rw [fault?_eq_none_iff]
  refine ⟨by omega, Int.le_trans within room, ?_, ?_⟩
  · rw [minimum]
    rintro lo ⟨⟩
    exact low
  · rw [maximum, stop]
    rintro hi ⟨⟩
    exact within

/-- The exclusive end of a placed range that was fetched is not bent. -/
theorem stop_of_fetched (placed : Index.Placed start count) :
    Index.add start (Index.wrapCount count) = start + count := by
  rw [Index.wrapCount_eq_self placed.short, Index.add_eq_add placed.inRange]

/-- How a fetched range that touches the loaded items is taken up. -/
def joinPlan (w : IndexWindow) (start : Int) (count : Nat) : MergePlan where
  front := ⟨0, (w.start - start).toNat⟩
  back := ⟨min count (w.start + w.count - start).toNat, count⟩

/-- A fetched range that touches the loaded items adds what lies before them and what lies behind.
-/
theorem planMerge_of_touching (placed : Index.Placed w.start w.count)
    (placed' : Index.Placed start count)
    (touches : start ≤ w.start + w.count ∧ w.start ≤ start + count) :
    w.planMerge start count = .ok (w.joinPlan start count) := by
  have stop := stop_eq placed
  have fetched := stop_of_fetched placed'
  have short := placed'.short
  unfold planMerge joinPlan
  -- neither end is bent, so the code computes with the plain ends
  rw [fetched, stop]
  dsimp only
  rw [if_neg (by omega)]
  congr 3
  · by_cases before : start < w.start
    · have reaches : min (start + count) w.start - start = w.start - start := by omega
      rw [if_pos before, reaches, Index.toCount_eq_toNat (by omega) (by omega)]
    · rw [if_neg before]
      omega
  · split
    · have behind : Index.sub (w.start + w.count) start = w.start + w.count - start := by
        refine Index.sub_eq_sub ?_
        simp only [Index.InRange, Index.least, Index.greatest] at *
        omega
      rw [behind]
      congr 1
      omega
    · congr 1
      omega

/-- Once such a range is taken up, the window reaches as far as both do. -/
theorem ends_of_joinPlan (placed' : Index.Placed start count)
    (touches : start ≤ w.start + w.count ∧ w.start ≤ start + count) :
    (w.merge (w.joinPlan start count)).start = min start w.start
      ∧ (w.merge (w.joinPlan start count)).start + (w.merge (w.joinPlan start count)).count
        = max (start + count) (w.start + w.count) := by
  have short := placed'.short
  have front : Index.wrapCount (w.joinPlan start count).front.length
      = max (w.start - start) 0 := by
    rw [joinPlan, Slice.length_mk, Index.wrapCount_eq_self (by omega)]
    omega
  have begins : (w.merge (w.joinPlan start count)).start = min start w.start := by
    show w.start - Index.wrapCount (w.joinPlan start count).front.length = _
    rw [front]
    omega
  have counts : (w.merge (w.joinPlan start count)).count = w.count
      + ((w.start - start).toNat + (count - min count (w.start + w.count - start).toNat)) := rfl
  refine ⟨begins, ?_⟩
  rw [begins, counts]
  omega

/-- A fetched range that touches the loaded items and lies within the bounds that come with it is
taken up. -/
theorem absorb_of_touching (low : 0 ≤ w.start) (low' : 0 ≤ start) (within : w.start + w.count ≤ n)
    (within' : start + count ≤ n) (room : n ≤ Index.greatest)
    (touches : start ≤ w.start + w.count ∧ w.start ≤ start + count) (asked : Span) :
    ∃ next, w.absorb asked start count (some 0) (some n) = .ok (w.joinPlan start count, next)
      ∧ next.start = min start w.start
      ∧ next.start + next.count = max (start + count) (w.start + w.count) := by
  have placed' : Index.Placed start count := .of_low low' (Int.le_trans within' room)
  have plan := planMerge_of_touching (.of_low low (Int.le_trans within room)) placed' touches
  obtain ⟨begins, ends⟩ := ends_of_joinPlan placed' touches
  generalize hm : w.merge (w.joinPlan start count) = merged at begins ends
  refine ⟨{ merged with minimum := some 0, maximum := some n }, ?_, begins, ends⟩
  have sound : fault? { merged with minimum := some 0, maximum := some n } = none :=
    fault?_of_known (by dsimp only; omega) rfl rfl (by dsimp only; omega) room
  have learnt : w.learnBounds asked (decide (count = 0)) (some 0) (some n) = (some 0, some n) := rfl
  simp only [absorb, plan, learnt, hm, bind, Except.bind, sound]

/-- A plan that takes up nothing of a fetched range. -/
structure Idle (w : IndexWindow) (count : Nat) (p : MergePlan) (next : IndexWindow) : Prop where
  front : p.front.stop = 0
  back : count ≤ p.back.start
  start : next.start = w.start
  count : next.count = w.count

/-- A plan that takes up nothing leaves the window where it is. -/
theorem ends_of_front {p : MergePlan} (fits : p.Fits w start count) (front : p.front.stop = 0)
    (back : count ≤ p.back.start) :
    (w.merge p).start = w.start ∧ (w.merge p).count = w.count := by
  have none : p.front.length = 0 := by
    rw [Slice.length]
    omega
  have none' : p.back.length = 0 := by
    rw [Slice.length, fits.back_stop]
    omega
  constructor
  · show w.start - Index.wrapCount p.front.length = w.start
    rw [none, Index.wrapCount_zero, Int.sub_zero]
  · show w.count + (p.front.length + p.back.length) = w.count
    rw [none, none', Nat.add_zero]

/-- A plan with neither front nor tail leaves the window where it is. -/
theorem idle_of_front {p : MergePlan} {asked : Span} {lo hi : Option Int} {next : IndexWindow}
    (fits : p.Fits w start count) (front : p.front.stop = 0) (back : count ≤ p.back.start)
    (h : w.absorb asked start count lo hi = .ok (p, next)) : w.Idle count p next := by
  obtain ⟨-, -, minimum, maximum, rfl⟩ := eq_of_absorb h
  obtain ⟨start, count⟩ := ends_of_front fits front back
  exact ⟨front, back, start, count⟩

/-- Of an answer without items nothing is taken up. -/
theorem idle_of_empty {asked : Span} {lo hi : Option Int} {p : MergePlan} {next : IndexWindow}
    (inRange : Index.InRange w.start) (inRange' : Index.InRange start)
    (h : w.absorb asked start 0 lo hi = .ok (p, next)) : w.Idle 0 p next := by
  obtain ⟨planned, -⟩ := eq_of_absorb h
  have fits := fits_of_planMerge inRange inRange' planned
  exact idle_of_front fits (Nat.le_zero.1 fits.front_stop) (Nat.zero_le _) h

/-- The bounds that an answer leaves known are in order with the loaded items. -/
theorem ordered_of_learnBounds (valid : w.Valid) (asked : Span) (empty : Bool) :
    (∀ lo ∈ (w.learnBounds asked empty none none).1, lo ≤ w.start)
      ∧ ∀ hi ∈ (w.learnBounds asked empty none none).2, w.stop ≤ hi := by
  constructor
  · intro lo known
    cases h : w.minimum with
    | some lo' =>
      obtain rfl : lo' = lo := by simpa [learnBounds, h] using known
      exact valid.minimum_le lo' h
    | none =>
      obtain ⟨-, rfl⟩ : _ ∧ w.start = lo := by simpa [learnBounds, h] using known
      exact Int.le_refl _
  · intro hi known
    cases h : w.maximum with
    | some hi' =>
      obtain rfl : hi' = hi := by simpa [learnBounds, h] using known
      exact valid.le_maximum hi' h
    | none =>
      obtain ⟨-, rfl⟩ : _ ∧ w.stop = hi := by simpa [learnBounds, h] using known
      exact Int.le_refl _

/-- An answer that has no items and comes without bounds is always accepted. -/
theorem absorb_empty (valid : w.Valid) (inRange : Index.InRange w.start)
    (inRange' : Index.InRange start) (asked : Span) :
    ∃ p next, w.absorb asked start 0 none none = .ok (p, next) := by
  obtain ⟨p, planned⟩ : ∃ p, w.planMerge start 0 = .ok p := by
    unfold planMerge
    dsimp only
    rw [if_neg (by omega)]
    exact ⟨_, rfl⟩
  -- nothing is taken of the range, so the window stays; only its bounds may become known
  have fits := fits_of_planMerge inRange inRange' planned
  obtain ⟨begins, counts⟩ := ends_of_front fits (Nat.le_zero.1 fits.front_stop) (Nat.zero_le _)
  obtain ⟨lo, hi⟩ := ordered_of_learnBounds valid asked true
  generalize hb : w.learnBounds asked true none none = bounds at lo hi
  have sound : fault? { w.merge p with minimum := bounds.1, maximum := bounds.2 } = none := by
    rw [fault?_eq_none_iff]
    refine ⟨counts ▸ valid.count_le, ?_, begins ▸ lo, ?_⟩
    · dsimp only
      rw [begins, counts]
      exact valid.end_le
    · rw [stop]
      dsimp only
      rw [begins, counts]
      exact hi
  refine ⟨p, { w.merge p with minimum := bounds.1, maximum := bounds.2 }, ?_⟩
  simp only [absorb, planned, bind, Except.bind, decide_true, hb, sound]

/-- Of a fetched range that does not touch the loaded items nothing is taken up. -/
theorem eq_of_absorb_apart (placed : Index.Placed w.start w.count)
    (placed' : Index.Placed start count)
    (apart : ¬(start ≤ w.start + w.count ∧ w.start ≤ start + count)) {asked : Span}
    {lo hi : Option Int} {p : MergePlan} {next : IndexWindow}
    (h : w.absorb asked start count lo hi = .ok (p, next)) :
    count = 0 ∧ next.start = w.start ∧ next.count = w.count := by
  -- an answer without items is all that the plan lets pass
  have none : count = 0 := by
    obtain ⟨planned, -⟩ := eq_of_absorb h
    unfold planMerge at planned
    rw [stop_of_fetched placed', stop_eq placed] at planned
    dsimp only at planned
    split at planned
    · cases planned
    · omega
  subst none
  have idle := idle_of_empty placed.first placed'.first h
  exact ⟨rfl, idle.start, idle.count⟩

/-- What can come of a fetched range that is accepted: it touches the loaded items and is joined
with them, or nothing is taken up of it. That is so for an answer without items, and for one with
more items than there are positive indices. -/
theorem absorb_cases (placed : Index.Placed w.start w.count) (inRange : Index.InRange start)
    (room : start + count ≤ Index.greatest) {asked : Span} {lo hi : Option Int} {p : MergePlan}
    {next : IndexWindow} (h : w.absorb asked start count lo hi = .ok (p, next)) :
    w.Idle count p next
      ∨ (start ≤ w.start + w.count ∧ w.start ≤ start + count) ∧ p = w.joinPlan start count
        ∧ next.start = min start w.start
        ∧ next.start + next.count = max (start + count) (w.start + w.count) := by
  obtain ⟨planned, -, minimum, maximum, next_eq⟩ := eq_of_absorb h
  have fits := fits_of_planMerge placed.first inRange planned
  rcases Nat.eq_zero_or_pos count with rfl | some
  · exact .inl (idle_of_empty placed.first inRange h)
  by_cases short : (count : Int) ≤ Index.greatest
  · have placed' : Index.Placed start count := ⟨inRange, short, room⟩
    have touches : start ≤ w.start + w.count ∧ w.start ≤ start + count :=
      Decidable.byContradiction fun apart =>
        Nat.ne_of_gt some (eq_of_absorb_apart placed placed' apart h).1
    obtain rfl : p = w.joinPlan start count :=
      Except.ok.inj (planned.symm.trans (planMerge_of_touching placed placed' touches))
    obtain ⟨begins, ends⟩ := ends_of_joinPlan (w := w) placed' touches
    exact .inr ⟨touches, rfl, next_eq ▸ begins, next_eq ▸ ends⟩
  -- the count wraps: the range seems to end at the least index, so nothing of it is taken
  · have stop := Index.stop_of_greatest_lt inRange room (Int.not_le.1 short)
    have begins := placed.first.1
    have least := inRange.1
    unfold planMerge at planned
    rw [stop] at planned
    dsimp only at planned
    split at planned
    · cases planned
    · have first : w.start = Index.least := by omega
      have ordered := w.start_le_stop placed.first.2
      rw [if_neg (by omega), if_neg (by omega)] at planned
      cases planned
      exact .inl (idle_of_front fits rfl (Nat.le_refl _) h)

/-- The bounds that are known once a fetched range is taken up. -/
theorem bounds_of_absorb {asked : Span} {lo hi : Option Int} {p : MergePlan} {next : IndexWindow}
    (h : w.absorb asked start count lo hi = .ok (p, next)) :
    (next.minimum, next.maximum) = w.learnBounds asked (count = 0) lo hi := by
  obtain ⟨plan, -, h⟩ := bind_eq_ok_iff.1 h
  dsimp only at h
  split at h
  · cases h
  · cases h
    rfl

end

end IndexWindow

end ListSync
