import ListSync.Proofs.Session.Placing
import ListSync.Session.Checked

/-!
# Plain arithmetic stays within the index range

What to fetch ahead is computed for a loaded index only, which is no further from either edge than
there are loaded items, and an answer is merged only where it touches or overlaps these. So the
plain results on the way fit, wherever in the index range everything lies (`planChecked_eq`,
`absorbChecked_eq`), and accesses and updates never stop for one (`computes_always`). The position
of an item is another matter: its distance from the first loaded one is computed for any index, and
stops the look-up exactly when it does not fit (`positionChecked_eq`).
-/

namespace ListSync

namespace IndexWindow

variable {w : IndexWindow}

/-! ## Positions and plans -/

/-- What lies between an index of the loaded range and its ends is short. -/
theorem distances_of_contains (start : Index.InRange w.start) {i : Int} (loaded : w.contains i) :
    Index.InRange (i - w.start) ∧ Index.InRange (w.stop - 1)
      ∧ Index.InRange (w.stop - 1 - i) := by
  obtain ⟨first, last⟩ := (w.contains_iff i).1 loaded
  simp only [span, stop, Index.add, Index.clamp, Index.ofCount, Index.InRange, Index.least,
    Index.greatest] at *
  omega

/-- The place of an index is computed exactly if its distance from the first item is an index. -/
theorem positionChecked_eq (w : IndexWindow) (i : Int) :
    w.positionChecked i =
      if Index.InRange (i - w.start) then .ok (w.position? i) else .error ⟨i - w.start⟩ := by
  unfold positionChecked
  by_cases fits : Index.InRange (i - w.start)
  · rw [if_pos fits, Index.plain_bind fits]
    rfl
  · rw [if_neg fits, Index.plain_bind_of_not fits]

/-- What to fetch near the edges is computed without stopping for a loaded index. -/
theorem prefetchChecked_eq (start : Index.InRange w.start) (p : Policy) {i : Int}
    (loaded : w.contains i) : w.prefetchChecked p i = .ok (w.prefetch p i) := by
  obtain ⟨fromStart, last, fromLast⟩ := distances_of_contains start loaded
  unfold prefetchChecked prefetch
  dsimp only
  split
  · rfl
  · rw [Index.plain_bind fromStart, Index.plain_bind last, Index.plain_bind fromLast]
    rfl

/-- What to fetch for an index is computed without stopping. -/
theorem planChecked_eq (start : Index.InRange w.start) (p : Policy) (i : Int) :
    w.planChecked p i = .ok (w.plan p i) := by
  unfold planChecked
  by_cases loaded : w.contains i
  · have wanted : w.wanted p i = w.prefetch p i := if_pos loaded
    rw [if_pos loaded, prefetchChecked_eq start p loaded, plan, wanted]
    rfl
  · rw [if_neg loaded]
    rfl

/-! ## Merges -/

/-- What is taken of a fetched range is no more than the whole of it. -/
theorem length_of_planMerge {start : Int} {count : Nat} {p : MergePlan}
    (inRange : Index.InRange w.start) (inRange' : Index.InRange start)
    (h : w.planMerge start count = .ok p) : p.length ≤ count := by
  have ordered := start_le_stop w inRange.2
  unfold planMerge at h
  dsimp only at h
  split at h
  · cases h
  · rename_i touches
    cases h
    have reaches : 0 < count → w.start ≤ Index.add start (Index.wrapCount count) := by omega
    rw [MergePlan.length, Slice.length_mk]
    generalize length : (if start < w.start then _ else 0) = front
    obtain ⟨front_le, placed⟩ := front_of_touching inRange inRange' reaches length.symm
    rw [Slice.length]
    split
    · -- the part behind the loaded items begins after the part before them
      have behind : w.start - start ≤ Index.greatest →
          w.start - start ≤ Index.sub w.stop start := by
        simp only [Index.sub, Index.clamp, Index.least, Index.greatest]
        omega
      dsimp only
      omega
    · dsimp only
      omega

/-- What to take of a fetched range in memory is computed without stopping. -/
theorem planMergeChecked_eq {start : Int} {count : Nat} (inRange : Index.InRange start)
    (short : count ≤ Index.greatest) :
    w.planMergeChecked start count = .ok (w.planMerge start count) := by
  unfold planMergeChecked planMerge
  rw [Index.wrapCount_eq_self short]
  dsimp only
  split
  · rfl
  · by_cases before : start < w.start
    · -- no more lies before the loaded items than was fetched
      have fits : Index.InRange (min (Index.add start count) w.start - start) := by
        simp only [Index.add, Index.clamp, Index.InRange, Index.least, Index.greatest] at *
        omega
      rw [if_pos before, if_pos before, Index.plain_bind fits]
      rfl
    · rw [if_neg before, if_neg before]
      rfl

/-- A plan that keeps begin and count within the machine is carried out without stopping. -/
theorem mergeChecked_eq {p : MergePlan}
    (start : Index.InRange (w.start - Index.wrapCount p.front.length))
    (count : w.count + p.length ≤ maxCount) : w.mergeChecked p = .ok (w.merge p) := by
  have length : p.length ≤ maxCount := Nat.le_trans (Nat.le_add_left ..) count
  unfold mergeChecked
  rw [Index.plain_bind start, Index.plainCount_bind length, Index.plainCount_bind count]
  rfl

/-- Whatever is fetched, a window that counts what fits into memory takes it up in plain
arithmetic. -/
theorem absorbChecked_eq {start : Int} {count : Nat} (inRange : Index.InRange w.start)
    (inRange' : Index.InRange start) (loaded : w.count ≤ Index.greatest)
    (short : count ≤ Index.greatest) (asked : Span) (minimum maximum : Option Int) :
    w.absorbChecked asked start count minimum maximum
      = .ok (w.absorb asked start count minimum maximum) := by
  unfold absorbChecked absorb
  rw [planMergeChecked_eq inRange' short]
  cases planned : w.planMerge start count with
  | error fault => rfl
  | ok plan =>
    have length := length_of_planMerge inRange inRange' planned
    have begins : Index.InRange (w.start - Index.wrapCount plan.front.length) := by
      rcases (fits_of_planMerge inRange inRange' planned).begins with same | same
      · rwa [same]
      · rwa [same]
    have counted : w.count + plan.length ≤ maxCount := by
      simp only [maxCount, Index.greatest] at *
      omega
    show (w.mergeChecked plan >>= _) = _
    rw [mergeChecked_eq begins counted]
    rfl

end IndexWindow

namespace Session

variable {s : Session} {listId : ListId} {l : LoadedList} {w : IndexWindow}

/-! ## What fits into memory -/

/-- Every list fits into memory: its items take more than a byte each, and there are no more bytes
than positive indices. -/
def InMemory (s : Session) : Prop :=
  ∀ slot ∈ s.lists.slots, ∀ l ∈ slot, (l.items.length : Int) ≤ Index.greatest

instance (s : Session) : Decidable s.InMemory :=
  inferInstanceAs (Decidable (∀ slot ∈ s.lists.slots, ∀ l ∈ slot, _))

/-- After a move every list fits into memory. -/
def StaysInMemory (s : Session) (m : Move) : Prop := (s.step m).InMemory

instance (s : Session) (m : Move) : Decidable (StaysInMemory s m) :=
  inferInstanceAs (Decidable (s.step m).InMemory)

/-- What fits into memory can be counted. -/
theorem StaysInMemory.countable {m : Move} (h : StaysInMemory s m) : StaysCountable s m := by
  intro slot among l held
  have short := h slot among l held
  simp only [Index.greatest, maxCount] at short ⊢
  omega

/-- The items that come with an update fit into memory. -/
def FitsMemory : Update → Prop
  | .range a => (a.items.length : Int) ≤ Index.greatest
  | _ => True

/-- All windows begin at an index, count the loaded items, and count what fits into memory. -/
structure Measured (s : Session) : Prop where
  counts : Counts s
  memory : s.InMemory

/-- The window of a measured session begins at an index. -/
theorem Measured.start (h : s.Measured) (found : s.find? listId = some l)
    (loaded : l.window = .index w) : Index.InRange w.start :=
  h.counts.starts listId l w found loaded

/-- The window of a measured session counts no more items than there are positive indices. -/
theorem Measured.count_le (h : s.Measured) (found : s.find? listId = some l)
    (loaded : l.window = .index w) : (w.count : Int) ≤ Index.greatest := by
  rw [h.counts.counted listId l w found loaded]
  exact h.memory _ (mem_slots_of_find? found) l rfl

/-! ## Accesses -/

/-- The distance of an index from the first loaded item is an index, if the list is an index
list. -/
def Reaches (s : Session) (listId : ListId) (i : Int) : Prop :=
  ∀ l w, s.find? listId = some l → l.window = .index w → Index.InRange (i - w.start)

/-- Of an index list that is there, an index is reached if its distance from the first item is one.
-/
theorem reaches_iff (found : s.find? listId = some l) (loaded : l.window = .index w) {i : Int} :
    s.Reaches listId i ↔ Index.InRange (i - w.start) := by
  refine ⟨fun reaches => reaches l w found loaded, fun fits l' w' found' loaded' => ?_⟩
  cases found.symm.trans found'
  cases loaded.symm.trans loaded'
  exact fits

/-- An item is looked up in checked arithmetic exactly when the distance fits. -/
theorem getIndexChecked_iff (s : Session) (listId : ListId) (i : Int) :
    s.getIndexChecked listId i = .ok ((s.find? listId).bind (·.getIndex? i))
      ↔ s.Reaches listId i := by
  unfold getIndexChecked
  cases found : s.find? listId with
  | none =>
    refine ⟨fun _ l w found' => ?_, fun _ => rfl⟩
    cases found.symm.trans found'
  | some l =>
    simp only [LoadedList.getIndexChecked, LoadedList.getIndex?, Option.bind_some]
    cases loaded : l.window with
    | token w =>
      refine ⟨fun _ l' w' found' loaded' => ?_, fun _ => rfl⟩
      cases found.symm.trans found'
      cases loaded.symm.trans loaded'
    | index w =>
      rw [reaches_iff found loaded]
      simp only [IndexWindow.positionChecked_eq]
      by_cases fits : Index.InRange (i - w.start)
      · rw [if_pos fits]
        exact ⟨fun _ => fits, fun _ => rfl⟩
      · rw [if_neg fits]
        refine ⟨fun done => ?_, fun fits' => absurd fits' fits⟩
        cases done

/-- An access to an index never stops a measured session. -/
theorem Measured.ensureIndexChecked (h : s.Measured) (listId : ListId) (i : Int) :
    s.ensureIndexChecked listId i = .ok (s.ensureIndex listId i) := by
  unfold Session.ensureIndexChecked ensureIndex
  by_cases finished : s.finished
  · rw [if_pos finished, if_pos finished]
    rfl
  · rw [if_neg finished, if_neg finished]
    cases foundKind : s.findKind listId .index with
    | error why => rfl
    | ok l =>
      obtain ⟨found, -⟩ := findKind_eq_ok_iff.1 foundKind
      dsimp only
      cases loaded : l.window with
      | token w => rfl
      | index w =>
        dsimp only
        rw [IndexWindow.planChecked_eq (h.start found loaded)]
        rfl

/-- An access to a position never stops a measured session. -/
theorem Measured.ensurePositionChecked (h : s.Measured) (listId : ListId) (position : Nat) :
    s.ensurePositionChecked listId position = .ok (s.ensurePosition listId position) := by
  unfold Session.ensurePositionChecked ensurePosition
  by_cases finished : s.finished
  · rw [if_pos finished, if_pos finished]
    rfl
  · rw [if_neg finished, if_neg finished]
    cases s.find? listId with
    | none => rfl
    | some l =>
      dsimp only
      cases l.window with
      | token w => rfl
      | index w => exact h.ensureIndexChecked listId _

/-! ## Updates -/

/-- A fetched range that fits into memory never stops a measured session. -/
theorem Measured.applyRangeChecked (h : s.Measured) {a : RangeAnswer}
    (found : s.find? a.listId = some l) (inRange : Index.InRange a.start)
    (short : (a.items.length : Int) ≤ Index.greatest) :
    s.applyRangeChecked l a = .ok (s.applyRange l a) := by
  unfold Session.applyRangeChecked
  cases s.checkRange a with
  | error why => rfl
  | ok asked =>
    cases loaded : l.window with
    | token w => rfl
    | index w =>
      -- what is in flight has no part in the arithmetic
      have start := h.start found loaded
      have count := h.count_le found loaded
      dsimp only
      rw [IndexWindow.absorbChecked_eq (w := w.clear asked) start inRange count short]
      rfl

/-- An update that was read and fits into memory never stops a measured session. -/
theorem Measured.dispatchChecked (h : s.Measured) (kind : Kind) {update : Update}
    (inRange : ∀ a, update = .range a → Index.InRange a.start) (fits : FitsMemory update) :
    s.dispatchChecked kind update = .ok (s.dispatch kind update) := by
  unfold Session.dispatchChecked dispatch
  cases foundKind : s.findKind update.listId kind with
  | error why => rfl
  | ok l =>
    obtain ⟨found, -⟩ := findKind_eq_ok_iff.1 foundKind
    cases update with
    | batch b => rfl
    | range a => exact h.applyRangeChecked found (inRange a rfl) fits
    | page a => rfl

/-- An update that fits into memory never stops a measured session, readable or not. -/
theorem Measured.applyChecked (h : s.Measured) (kindName : String) (payload : Json)
    (fits : ∀ kind update, readUpdate kindName payload = .ok (kind, update) → FitsMemory update) :
    s.applyChecked kindName payload = .ok (s.apply kindName payload) := by
  unfold Session.applyChecked apply
  by_cases finished : s.finished
  · rw [if_pos finished, if_pos finished]
    rfl
  · rw [if_neg finished, if_neg finished]
    cases read : readUpdate kindName payload with
    | error why => rfl
    | ok readAs =>
      obtain ⟨kind, update⟩ := readAs
      have inRange : ∀ a, update = .range a → Index.InRange a.start := fun a same =>
        ((readFrom_of_readUpdate read).inRange a same).start
      dsimp only
      rw [h.dispatchChecked kind inRange (fits kind update read)]
      -- what is refused is reported in the one way and in the other
      generalize s.dispatch kind update = result
      obtain ⟨next, why | applied⟩ := result
      · rfl
      · rfl

/-! ## Runs -/

/-- In checked arithmetic a session answers every call as it does without the checks, except that it
stops for an item at an index which is too far from the first loaded one. -/
structure Computes (s : Session) : Prop where
  ensureIndex : ∀ listId i, s.ensureIndexChecked listId i = .ok (s.ensureIndex listId i)
  ensurePosition : ∀ listId position,
    s.ensurePositionChecked listId position = .ok (s.ensurePosition listId position)
  apply : ∀ kindName payload,
    (∀ kind update, readUpdate kindName payload = .ok (kind, update) → FitsMemory update) →
      s.applyChecked kindName payload = .ok (s.apply kindName payload)
  getIndex : ∀ listId i,
    s.getIndexChecked listId i = .ok ((s.find? listId).bind (·.getIndex? i)) ↔ s.Reaches listId i

/-- A measured session stops for no call but a look at an index too far away. -/
theorem Measured.computes (h : s.Measured) : s.Computes where
  ensureIndex := h.ensureIndexChecked
  ensurePosition := h.ensurePositionChecked
  apply := h.applyChecked
  getIndex := s.getIndexChecked_iff

/-- All along a run of a session that fits into memory, plain arithmetic stays within the index
range, save for the position of an item that is not loaded. -/
theorem computes_always {policy : Policy} (created : create policy = .ok s) {moves : List Move}
    (memory : s.Throughout StaysInMemory moves) : s.Always Computes moves := by
  rw [always_iff_trace]
  refine Trace.always_of_throughout (J := Measured) (fun _ h => h.computes) (fun s m h stays => ?_)
    ⟨counts_create created, ?_⟩ (throughout_iff_trace.1 memory)
  · exact ⟨h.counts.step stays.countable, stays⟩
  · obtain ⟨policy', -, rfl⟩ := eq_of_create created
    exact fun slot among => absurd among List.not_mem_nil

/-- The last index is wanted of a list that begins before zero, and the next item comes. -/
def reachingRun : List Move :=
  [.register "dynamicIndexList" (.obj [("listId", .str "l"), ("startIndex", Json.ofInt (-1)),
      ("items", .arr [.str "a"])]),
    .ensureIndex "l" Index.greatest (by decide),
    .apply "dynamicIndexList" (.obj [("listId", .str "l"), ("correlationToken", .str "101"),
      ("startIndex", Json.ofInt 0), ("items", .arr [.str "b"])])]

/-- The fetch is planned and the answer merged. -/
theorem computes_always_reachingRun :
    (({} : Session).run reachingRun).find? "l" = some ⟨"l", [.str "a", .str "b"],
      .index ⟨none, none, -1, 2, []⟩⟩
    ∧ ({} : Session).Always Computes reachingRun :=
  ⟨by decide, computes_always (show create {} = .ok {} from rfl) (by decide)⟩

/-- To look for an item at the last index stops there, though all that comes of it is that there is
none. -/
theorem getIndex_stops_reachingRun :
    (({} : Session).run reachingRun).getIndexChecked "l" Index.greatest
        = .error ⟨Index.greatest + 1⟩
      ∧ ((({} : Session).run reachingRun).find? "l").bind (·.getIndex? Index.greatest) = none := by
  decide

end Session

end ListSync
