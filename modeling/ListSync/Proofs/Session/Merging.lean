import ListSync.Proofs.Session.Placing

/-!
# A fetched range is merged exactly

Loaded items stay as they are when a fetched range comes in, and what the range has before and
behind them is put to them. `IndexWindow.absorb_of_joins` says so of the window: it is checked once
it has grown over both ranges (`IndexWindow.grown`). `getElem?_join` says so of the items: each
index of the grown window has the item that was loaded there, or else the one that was fetched.
`merges_exactly` is what becomes of the answer as a whole, be it accepted or refused.
-/

namespace ListSync

namespace IndexWindow

variable {w : IndexWindow} {start : Int} {count : Nat}

/-- The fetched range has items, and neither touches nor overlaps the loaded ones. -/
def Apart (w : IndexWindow) (start : Int) (count : Nat) : Prop :=
  0 < count ∧ (start + count < w.start ∨ w.start + w.count < start)

instance (w : IndexWindow) (start : Int) (count : Nat) : Decidable (w.Apart start count) :=
  inferInstanceAs (Decidable (_ ∧ _))

/-- The range of the loaded items and of fetched ones, if there are any. -/
def hull (w : IndexWindow) (start : Int) (count : Nat) : Span :=
  if count = 0 then ⟨w.start, w.start + w.count⟩
  else ⟨min w.start start, max (w.start + w.count) (start + count)⟩

/-- The window over the loaded and the fetched items, with the bounds that are known then. -/
def grown (w : IndexWindow) (asked : Span) (start : Int) (count : Nat)
    (minimum maximum : Option Int) : IndexWindow :=
  { w with
    start := (w.hull start count).start
    count := ((w.hull start count).stop - (w.hull start count).start).toNat
    minimum := (w.learnBounds asked (count = 0) minimum maximum).1
    maximum := (w.learnBounds asked (count = 0) minimum maximum).2 }

/-- What a fetched range has before and behind the loaded items. -/
def cuts (w : IndexWindow) (start : Int) (count : Nat) : MergePlan where
  front := ⟨0, min count (w.start - start).toNat⟩
  back := ⟨min count (w.start + w.count - start).toNat, count⟩

/-- The two parts that are cut off lie within the fetched items, one behind the other. -/
structure MergePlan.Within (p : MergePlan) (count : Nat) : Prop where
  first : p.front.start = 0
  ordered : p.front.stop ≤ p.back.start
  inside : p.back.start ≤ count
  last : p.back.stop = count

/-- The items with the planned parts of fetched ones before and behind them. -/
def MergePlan.join {α : Type} (p : MergePlan) (items fetched : List α) : List α :=
  fetched.take p.front.stop ++ items ++ fetched.drop p.back.start

theorem within_cuts (w : IndexWindow) (start : Int) (count : Nat) :
    (w.cuts start count).Within count where
  first := rfl
  ordered := by
    simp only [cuts]
    omega
  inside := Nat.min_le_left ..
  last := rfl

/-- The plan for a fetched range is an exact one unless the range is apart. -/
theorem planMerge_of_joins (placed : Index.Placed w.start w.count)
    (placed' : Index.Placed start count) (joins : ¬w.Apart start count) :
    w.planMerge start count = .ok (w.cuts start count) := by
  rcases Nat.eq_zero_or_pos count with rfl | some
  · -- no items are cut into two empty parts, wherever they would be
    unfold planMerge cuts
    rw [stop_of_fetched placed', stop_eq placed]
    dsimp only
    rw [if_neg (by omega)]
    congr 3
    · split
      · rw [show min (start + (0 : Nat)) w.start - start = 0 by omega]
        simp [Index.toCount]
      · simp
    · split
      · rw [show Index.sub (w.start + w.count) start = Index.clamp (w.start + w.count - start)
          from rfl]
        simp only [Index.clamp, Index.least, Index.greatest]
        congr 1
        omega
      · simp
  · have touches : start ≤ w.start + w.count ∧ w.start ≤ start + count := by
      simp only [Apart] at joins
      omega
    rw [planMerge_of_touching placed placed' touches]
    simp only [joinPlan, cuts]
    congr 3
    omega

/-- A fetched range that is apart is refused. -/
theorem absorb_of_apart (placed : Index.Placed w.start w.count)
    (placed' : Index.Placed start count) (apart : w.Apart start count) (asked : Span)
    (minimum maximum : Option Int) :
    w.absorb asked start count minimum maximum
      = .error (.detached ⟨start, start + count⟩ w.span) := by
  unfold absorb planMerge
  rw [stop_of_fetched placed', stop_eq placed]
  dsimp only
  rw [if_pos (show 0 < count ∧ (start + count < w.start ∨ w.start + w.count < start) from apart)]
  rfl

/-- The two parts lead from the loaded items to the ends of both ranges. -/
theorem hull_of_joins (joins : ¬w.Apart start count) :
    (w.hull start count).start = w.start - (w.cuts start count).front.length
      ∧ (w.hull start count).stop = w.start + w.count + (w.cuts start count).back.length := by
  simp only [Apart] at joins
  simp only [hull, cuts, Slice.length]
  split
  · dsimp only
    omega
  · dsimp only
    omega

/-- The planned parts make the window grow over both ranges. -/
theorem merge_cuts (placed' : Index.Placed start count) (joins : ¬w.Apart start count) :
    (w.merge (w.cuts start count)).start = (w.hull start count).start
      ∧ (w.merge (w.cuts start count)).count
        = ((w.hull start count).stop - (w.hull start count).start).toNat := by
  have short := placed'.short
  have wrapped : Index.wrapCount (w.cuts start count).front.length
      = (w.cuts start count).front.length := by
    refine Index.wrapCount_eq_self ?_
    simp only [cuts, Slice.length]
    omega
  obtain ⟨begins, ends⟩ := hull_of_joins joins
  rw [merge, begins, ends, wrapped, MergePlan.length]
  dsimp only
  omega

/-- Any other range is taken up exactly when the grown window has no fault. -/
theorem absorb_of_joins (placed : Index.Placed w.start w.count)
    (placed' : Index.Placed start count) (joins : ¬w.Apart start count) (asked : Span)
    (minimum maximum : Option Int) :
    w.absorb asked start count minimum maximum
      = match (w.grown asked start count minimum maximum).fault? with
        | some fault => .error fault
        | none => .ok (w.cuts start count, w.grown asked start count minimum maximum) := by
  obtain ⟨begins, counts⟩ := merge_cuts placed' joins
  have merged : { w.merge (w.cuts start count) with
      minimum := (w.learnBounds asked (count = 0) minimum maximum).1
      maximum := (w.learnBounds asked (count = 0) minimum maximum).2 }
      = w.grown asked start count minimum maximum := by
    rw [grown, ← counts, ← begins]
    rfl
  unfold absorb
  rw [planMerge_of_joins placed placed' joins, ← merged]
  rfl

/-- A fetched range that touches the loaded items is taken up if the grown window is valid. -/
theorem absorb_of_grown (placed : Index.Placed w.start w.count)
    (placed' : Index.Placed start count) (joins : ¬w.Apart start count) {asked : Span}
    {minimum maximum : Option Int} (valid : (w.grown asked start count minimum maximum).Valid) :
    w.absorb asked start count minimum maximum
      = .ok (w.cuts start count, w.grown asked start count minimum maximum) := by
  rw [absorb_of_joins placed placed' joins, (fault?_eq_none_iff _).2 valid]

/-- So a range that is taken up makes the window grow over both. -/
theorem grown_of_absorb (placed : Index.Placed w.start w.count)
    (placed' : Index.Placed start count) (joins : ¬w.Apart start count) {asked : Span}
    {minimum maximum : Option Int} {p : MergePlan} {next : IndexWindow}
    (taken : w.absorb asked start count minimum maximum = .ok (p, next)) :
    p = w.cuts start count ∧ next = w.grown asked start count minimum maximum ∧ next.Valid := by
  rw [absorb_of_joins placed placed' joins] at taken
  split at taken
  · cases taken
  · rename_i sound
    cases taken
    exact ⟨rfl, rfl, (fault?_eq_none_iff _).1 sound⟩

/-- A fetched range that lies apart is refused, and so is one that breaks the bounds. -/
theorem absorb_of_misfit (placed : Index.Placed w.start w.count)
    (placed' : Index.Placed start count) {asked : Span} {minimum maximum : Option Int}
    (misfit : w.Apart start count ∨ ¬(w.grown asked start count minimum maximum).Valid) :
    ∃ fault, w.absorb asked start count minimum maximum = .error fault := by
  by_cases apart : w.Apart start count
  · exact ⟨_, absorb_of_apart placed placed' apart ..⟩
  · rw [absorb_of_joins placed placed' apart]
    cases faulty : (w.grown asked start count minimum maximum).fault? with
    | some fault => exact ⟨fault, rfl⟩
    | none => exact absurd ((fault?_eq_none_iff _).1 faulty) (misfit.resolve_left apart)

/-- The hull of loaded and fetched items begins at an index. -/
theorem inRange_hull (inRange : Index.InRange w.start) (inRange' : Index.InRange start) :
    Index.InRange (w.hull start count).start := by
  unfold hull
  split
  · exact inRange
  · exact ⟨Int.le_min.2 ⟨inRange.1, inRange'.1⟩, Int.le_trans (Int.min_le_left ..) inRange.2⟩

end IndexWindow

/-! ## The merged items -/

section

variable {α : Type} {items fetched : List α} {w : IndexWindow} {start : Int}

/-- The positions outside of a stretch come before it and behind it. -/
theorem filter_range_outside (front middle back : Nat) :
    (List.range (front + middle + back)).filter (fun k => ¬(front ≤ k ∧ k < front + middle))
      = List.range front ++ List.range' (front + middle) back := by
  rw [List.range_eq_range', ← List.range'_append_1, ← List.range'_append_1, List.filter_append,
    List.filter_append]
  have before : (List.range' 0 front).filter (fun k => ¬(front ≤ k ∧ k < front + middle))
      = List.range front := by
    rw [List.range_eq_range', List.filter_eq_self]
    simp only [List.mem_range'_1, decide_eq_true_eq]
    omega
  have inside : (List.range' (0 + front) middle).filter
      (fun k => ¬(front ≤ k ∧ k < front + middle)) = [] := by
    rw [List.filter_eq_nil_iff]
    simp only [List.mem_range'_1, decide_eq_true_eq]
    omega
  have behind : (List.range' (0 + (front + middle)) back).filter
      (fun k => ¬(front ≤ k ∧ k < front + middle)) = List.range' (front + middle) back := by
    rw [Nat.zero_add, List.filter_eq_self]
    simp only [List.mem_range'_1, decide_eq_true_eq]
    omega
  rw [before, inside, behind, List.append_nil]

/-- Joined items are as many as their hull is long. -/
theorem length_join (count : w.count = items.length) (joins : ¬w.Apart start fetched.length) :
    (((w.cuts start fetched.length).join items fetched).length : Int)
      = (w.hull start fetched.length).stop - (w.hull start fetched.length).start := by
  obtain ⟨begins, ends⟩ := IndexWindow.hull_of_joins joins
  rw [begins, ends, count]
  simp only [IndexWindow.MergePlan.join, IndexWindow.cuts, IndexWindow.Slice.length,
    List.length_append, List.length_take, List.length_drop]
  omega

/-- Where an item was loaded it stays, and all others are those that were fetched. -/
theorem getElem?_join (count : w.count = items.length)
    (joins : ¬w.Apart start fetched.length) {i : Int}
    (first : (w.hull start fetched.length).start ≤ i)
    (last : i < (w.hull start fetched.length).stop) :
    ((w.cuts start fetched.length).join items fetched)[
        (i - (w.hull start fetched.length).start).toNat]?
      = if w.start ≤ i ∧ i < w.start + w.count then items[(i - w.start).toNat]?
        else fetched[(i - start).toNat]? := by
  obtain ⟨begins, ends⟩ := IndexWindow.hull_of_joins joins
  rw [begins] at first ⊢
  rw [ends] at last
  simp only [IndexWindow.Apart] at joins
  simp only [IndexWindow.MergePlan.join, IndexWindow.cuts, IndexWindow.Slice.length,
    Nat.sub_zero] at first last ⊢
  rw [List.append_assoc, List.getElem?_append, List.length_take]
  -- an index lies in the fetched front, among the loaded items, or in the fetched tail
  by_cases before : i < w.start
  · rw [if_pos (by omega), if_neg (by omega), List.getElem?_take_of_lt (by omega)]
    congr 1
    omega
  · rw [if_neg (by omega), List.getElem?_append]
    by_cases loaded : i < w.start + w.count
    · rw [if_pos (by omega), if_pos (by omega)]
      congr 1
      omega
    · rw [if_neg (by omega), if_neg (by omega), List.getElem?_drop]
      congr 1
      omega

/-- The difference that the merged items make lists the positions at which no item was loaded. -/
theorem diff_join (count : w.count = items.length) (joins : ¬w.Apart start fetched.length) :
    (extend items (fetched.take (w.cuts start fetched.length).front.stop)
        (fetched.drop (w.cuts start fetched.length).back.start)).2
      = .changes (((List.range ((w.cuts start fetched.length).join items fetched).length).filter
        fun k : Nat =>
        ¬(w.start ≤ (w.hull start fetched.length).start + k
          ∧ (w.hull start fetched.length).start + k < w.start + w.count)).map Change.insert) := by
  obtain ⟨begins, -⟩ := IndexWindow.hull_of_joins joins
  have front : (fetched.take (w.cuts start fetched.length).front.stop).length
      = (w.cuts start fetched.length).front.length := by
    simp only [IndexWindow.cuts, IndexWindow.Slice.length, List.length_take]
    omega
  rw [extend]
  dsimp only
  rw [← List.map_append, ← filter_range_outside, IndexWindow.MergePlan.join, List.length_append,
    List.length_append]
  congr 2
  refine List.filter_congr fun k _ => decide_eq_decide.2 ?_
  rw [front, begins, count]
  omega

end

namespace Session

/-- What has become of a list once fetched items were merged with those that were loaded. -/
structure Merged (l : LoadedList) (w : IndexWindow) (a : RangeAnswer) (l' : LoadedList)
    (next : IndexWindow) (diff : Diff) : Prop where
  count : next.count = l'.items.length
  kept : l.items <:+: l'.items
  inside : ∀ i, next.start ≤ i → i < next.start + next.count → ∃ item,
    l'.getIndex? i = some item
      ∧ (if w.start ≤ i ∧ i < w.start + w.count then l.items[(i - w.start).toNat]?
        else a.items[(i - a.start).toNat]?) = some item
  diff : diff = .changes (((List.range next.count).filter fun k : Nat =>
    ¬(w.start ≤ next.start + k ∧ next.start + k < w.start + w.count)).map Change.insert)

variable {s : Session} {u : QueuedUpdate} {a : RangeAnswer} {l : LoadedList} {r : Request}
  {w : IndexWindow} {asked : Span}

/-- Fetched items are merged once what they have before and behind the loaded ones is in place. -/
theorem merged_of_joins (fits : Fits l w) (placed : Index.Placed a.start a.items.length)
    (joins : ¬w.Apart a.start a.items.length) {next : IndexWindow}
    (grown : w.grown asked a.start a.items.length a.minimum a.maximum = next) (valid : next.Valid)
    {window : IndexWindow} (same : window = next.clear asked) :
    Merged l w a
      { l with
        items := (w.cuts a.start a.items.length).join l.items a.items
        window := .index window } next
      (extend l.items (a.items.take (w.cuts a.start a.items.length).front.stop)
        (a.items.drop (w.cuts a.start a.items.length).back.start)).2 := by
  have start : next.start = (w.hull a.start a.items.length).start := by
    rw [← grown]
    rfl
  have length := length_join fits.count joins
  have count : next.count = ((w.cuts a.start a.items.length).join l.items a.items).length := by
    rw [← grown, IndexWindow.grown]
    dsimp only
    omega
  have first : Index.InRange next.start :=
    start ▸ IndexWindow.inRange_hull fits.start placed.first
  have stop : next.stop = next.start + next.count := IndexWindow.stop_eq (valid.placed first)
  refine ⟨count, ⟨_, _, rfl⟩, ?_, ?_⟩
  · intro i low high
    -- once the items are counted, an index finds the item at its distance from the first one
    have place : Placed { l with
        items := (w.cuts a.start a.items.length).join l.items a.items
        window := .index window } window :=
      placed_of_count rfl (same ▸ first) (same ▸ count)
    have whole : window.stop = next.stop := by
      rw [same]
      rfl
    have begins : window.start = next.start := by rw [same]; rfl
    obtain ⟨within, found⟩ := place.inside i (begins ▸ low) (by omega)
    refine ⟨_, found, ?_⟩
    rw [← getElem?_join fits.count joins (by omega) (by omega), ← start, ← begins]
    exact List.getElem?_eq_getElem within
  · rw [diff_join fits.count joins, count, start]

/-- Merging is exact. A fetched range that touches neither end of the loaded items, or that makes
the window break the law of the bounds, leaves the items and the window, apart from what is in
flight. Any other one is cut within its items, and is merged. -/
theorem merges_exactly (sound : s.core.Sound) (answered : Answered s u (.range a) l r)
    (loaded : l.window = .index w) (range : r.span? = some asked) (fits : Fits l w)
    (placed : Index.Placed a.start a.items.length) {next : IndexWindow}
    (grown : w.grown asked a.start a.items.length a.minimum a.maximum = next) {s' : Session}
    {answer : Except Rejection Applied} (applied : s.apply u.kindName u.payload = (s', answer)) :
    (w.Apart a.start a.items.length ∨ ¬next.Valid →
      (∃ why, answer = .error (.inconsistentRange r.listId why))
        ∧ s'.find? r.listId = some { l with window := .index (w.clear asked) })
    ∧ (¬w.Apart a.start a.items.length →
      ∃ plan, w.planMerge a.start a.items.length = .ok plan ∧ plan.Within a.items.length)
    ∧ (¬w.Apart a.start a.items.length → next.Valid → ∃ l' diff,
      answer = .ok ⟨r.listId, diff, []⟩ ∧ s'.find? r.listId = some l'
        ∧ l'.window = .index (next.clear asked) ∧ Merged l w a l' next diff) := by
  have own : Index.Placed w.start w.count := fits.valid.placed fits.start
  -- what is in flight has no part in what becomes of a fetched range
  have cleared : (w.clear asked).grown asked a.start a.items.length a.minimum a.maximum
      = next.clear asked := by
    rw [← grown]
    rfl
  have same : ((w.clear asked).grown asked a.start a.items.length a.minimum a.maximum).Valid
      ↔ next.Valid := by
    rw [cleared, ← IndexWindow.fault?_eq_none_iff, ← IndexWindow.fault?_eq_none_iff]
    rfl
  have outcome := apply_of_range sound.requests answered loaded range
  rw [applied] at outcome
  refine ⟨?_, ?_, ?_⟩
  · intro misfit
    obtain ⟨fault, refused⟩ := IndexWindow.absorb_of_misfit (w := w.clear asked) own placed
      (misfit.imp_right (mt same.1))
    rw [refused] at outcome
    obtain ⟨_, _, ⟨⟩, -⟩ | ⟨_, ⟨⟩, result⟩ := outcome
    obtain ⟨rfl, rfl⟩ := Prod.mk.inj result
    have core := core_reject (s.settleKeeping r (.index (w.clear asked))) u.payload
      (.inconsistentRange r.listId fault.message)
    exact ⟨⟨_, rfl⟩, congrArg Entry.list? (entry_of_settled sound answered core)⟩
  · intro joins
    exact ⟨_, IndexWindow.planMerge_of_joins own placed joins, w.within_cuts ..⟩
  · intro joins valid
    have taken := IndexWindow.absorb_of_grown (w := w.clear asked) own placed joins (same.2 valid)
    rw [taken, cleared] at outcome
    obtain ⟨_, _, ⟨⟩, core, result⟩ | ⟨_, ⟨⟩, -⟩ := outcome
    exact ⟨_, _, result, congrArg Entry.list? (entry_of_settled sound answered core), rfl,
      merged_of_joins fits placed joins grown valid rfl⟩

/-- Two items are loaded from the tenth index on, and the ten behind them are being fetched. -/
def wantingMore : Session :=
  ({} : Session).run [.register "dynamicIndexList" (.obj [("listId", .str "l"),
      ("startIndex", Json.ofInt 10), ("minimumInclusiveIndex", Json.ofInt 3),
      ("items", .arr [.str "b", .str "c"])]),
    .ensureIndex "l" 15 (by decide)]

/-- An answer that reaches around the loaded items, with other contents in their places. -/
def aroundLoaded : RangeAnswer where
  listId := "l"
  token := "101"
  version := none
  start := 9
  minimum := none
  maximum := some 40
  items := [.str "a", .str "-", .str "-", .str "d", .str "e"]

/-- The loaded items stay when fetched ones come in around them. -/
theorem merges_exactly_aroundLoaded :
    Reachable wantingMore
    ∧ (wantingMore.apply "dynamicIndexList" aroundLoaded.toJson).1.find? "l"
      = some ⟨"l", [.str "a", .str "b", .str "c", .str "d", .str "e"],
        .index ⟨some 3, some 40, 9, 5, []⟩⟩
    ∧ ∃ l' diff, (wantingMore.apply "dynamicIndexList" aroundLoaded.toJson).2
        = .ok ⟨"l", diff, []⟩
      ∧ (wantingMore.apply "dynamicIndexList" aroundLoaded.toJson).1.find? "l" = some l'
      ∧ l'.window = .index ⟨some 3, some 40, 9, 5, []⟩
      ∧ Merged ⟨"l", [.str "b", .str "c"], .index ⟨some 3, none, 10, 2, [⟨12, 22⟩]⟩⟩
        ⟨some 3, none, 10, 2, [⟨12, 22⟩]⟩ aroundLoaded l' ⟨some 3, some 40, 9, 5, [⟨12, 22⟩]⟩
        diff := by
  have reachable : Reachable wantingMore := reachable_default.run _
  have found : wantingMore.find? "l" = some ⟨"l", [.str "b", .str "c"],
      .index ⟨some 3, none, 10, 2, [⟨12, 22⟩]⟩⟩ := by decide
  have answered : Answered wantingMore ⟨"dynamicIndexList", aroundLoaded.toJson⟩
      (.range aroundLoaded) ⟨"l", [.str "b", .str "c"],
        .index ⟨some 3, none, 10, 2, [⟨12, 22⟩]⟩⟩ ⟨"101", "l", .range 12 10⟩ :=
    ⟨by decide, by decide, found, by decide, rfl, rfl, rfl⟩
  have grown : IndexWindow.grown ⟨some 3, none, 10, 2, [⟨12, 22⟩]⟩ ⟨12, 22⟩ aroundLoaded.start
      aroundLoaded.items.length aroundLoaded.minimum aroundLoaded.maximum
      = ⟨some 3, some 40, 9, 5, [⟨12, 22⟩]⟩ := by decide
  refine ⟨reachable, by decide, ?_⟩
  exact (merges_exactly reachable.sound answered rfl (by decide) ⟨by decide, rfl, by decide⟩
    ⟨by decide, by decide, by decide⟩ grown rfl).2.2 (by decide) (by decide)

end Session

end ListSync
