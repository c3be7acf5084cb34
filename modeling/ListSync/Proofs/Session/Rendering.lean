import ListSync.Proofs.Source

/-!
# A session that shows a list of its service

A session that loads an index list from its service is told how far the list reaches with every
answer. `Session.Renders` says that it shows the items of the list over its window and knows the
bounds. It therefore asks for ranges within the list only (`Renders.want`), and these are answered
in full (`FullList.exact_of_within`). So what it is answered is accepted exactly when the request is
outstanding, and then the loaded items are joined with the answered ones (`Renders.receive`).
-/

namespace ListSync

open Producer

/-! ## Ranges of a list -/

namespace Producer.FullList

/-- The items of a list, from the first index on. -/
def source (l : FullList) : Source := ⟨0, l.items⟩

variable {l : FullList}

theorem stop_source (l : FullList) : l.source.stop = l.items.length := Int.zero_add _

/-- What a source has between two indices is the segment of the list there. -/
theorem between_source (l : FullList) (a b : Int) :
    l.source.between a b = segment l.items a.toNat b.toNat := by
  rw [Source.between, source, Int.sub_zero, Int.sub_zero]

/-- Any range of the list is loaded with the items of the list over it. -/
theorem sliceItems_eq (l : FullList) (start : Int) (count : Nat) :
    l.sliceItems (l.slice start count) = l.source.between (l.slice start count).1
      ((l.slice start count).1 + (l.sliceItems (l.slice start count)).length) := by
  have length := l.length_sliceItems start count
  rw [between_source, ← Int.natCast_add, length, Int.toNat_natCast, Int.toNat_natCast]
  rfl

/-- An answer gives some items of a list, and says how far the list reaches. -/
structure Gives (l : FullList) (a : RangeAnswer) : Prop where
  listId : a.listId = l.id
  version : a.version = none
  minimum : a.minimum = some 0
  maximum : a.maximum = some (l.items.length : Int)
  low : 0 ≤ a.start
  last : a.start + a.items.length ≤ l.items.length
  items : a.items = l.source.between a.start (a.start + a.items.length)

/-- What a list answers are items of it, with how far it reaches. -/
theorem gives_rangeAnswer (l : FullList) (token : CorrelationToken) (start : Int) (count : Nat) :
    l.Gives (l.rangeAnswer token start count) := by
  refine ⟨rfl, rfl, rfl, rfl, Int.natCast_nonneg _, ?_, l.sliceItems_eq start count⟩
  have length := l.length_sliceItems start count
  have last := (l.slice_le start count).2
  show ((l.slice start count).1 : Int) + (l.sliceItems (l.slice start count)).length ≤ _
  omega

/-- A range within the list is answered in full. -/
theorem exact_of_within (token : CorrelationToken) {start : Int} {count : Nat} (low : 0 ≤ start)
    (within : start + count ≤ l.items.length) :
    ((l.rangeAnswer token start count).start = start)
      ∧ (l.rangeAnswer token start count).items.length = count := by
  have length := l.length_sliceItems start count
  have first : ((l.slice start count).1 : Int) = start := by
    simp only [slice]
    omega
  have last : ((l.slice start count).2 : Int) = start + count := by
    simp only [slice]
    omega
  refine ⟨first, ?_⟩
  show (l.sliceItems (l.slice start count)).length = count
  omega

end Producer.FullList

/-- A request asks for some items of a list, all of which there are. -/
def Inside (list : FullList) (f : FetchRequest) : Prop :=
  ∃ start count, f = .range f.token list.id start count ∧ 0 ≤ start
    ∧ start + count ≤ list.items.length

/-! ## Sessions -/

namespace Session

/-- Whether the payload of a message is accepted. -/
def accepts (s : Session) : ServerMessage → Bool
  | .loaded p _ => (s.register p.kind.name p.toJson).2.isOk
  | .fetched a _ => (s.apply a.kind.name a.toJson).2.isOk
  | .update kind b => (s.apply kind.name b.toJson).2.isOk
  | _ => false

/-- A session shows the items of a list over its window and knows how far the list reaches. -/
structure Renders (s : Session) (list : FullList) (asked : List FetchRequest) (l : LoadedList)
    (w : IndexWindow) : Prop where
  loads : s.Loads list.id asked l w
  excerpt : list.source.Excerpt l w
  minimum : w.minimum = some 0
  maximum : w.maximum = some (list.items.length : Int)

variable {s : Session} {list : FullList} {asked : List FetchRequest} {l : LoadedList}
  {w : IndexWindow}

/-- What a client shows of a list ends with it, or before. -/
theorem Renders.last (renders : s.Renders list asked l w) :
    w.start + w.count ≤ list.items.length := by
  have last := renders.excerpt.last
  rwa [list.stop_source] at last

theorem Renders.low (renders : s.Renders list asked l w) : 0 ≤ w.start := renders.excerpt.first

/-- Given items that touch the loaded ones are always taken up. -/
theorem Renders.absorb_of_gives (renders : s.Renders list asked l w)
    (room : (list.items.length : Int) ≤ Index.greatest) {a : RangeAnswer} (gives : list.Gives a)
    {r : Request} (touches : Touches w r a.start a.items.length) (asked : Span) :
    ∃ w', (w.clear asked).absorb asked a.start a.items.length a.minimum a.maximum
        = .ok ((w.clear asked).joinPlan a.start a.items.length, w')
      ∧ w'.start = min a.start w.start
      ∧ w'.start + w'.count = max (a.start + a.items.length) (w.start + w.count) := by
  rw [gives.minimum, gives.maximum]
  exact IndexWindow.absorb_of_touching (w := w.clear asked) renders.low gives.low renders.last
    gives.last room ⟨touches.behind, touches.before⟩ asked

/-- An answer to a request for just the items that it gives is accepted if the request is
outstanding, and then its items are put to the loaded ones. Otherwise nothing changes. -/
theorem Renders.receive (renders : s.Renders list asked l w)
    (room : (list.items.length : Int) ≤ Index.greatest) {a : RangeAnswer} (gives : list.Gives a)
    (taken : FetchRequest.range a.token a.listId a.start a.items.length ∈ asked) :
    ∃ l' w', (s.receive (.fetched (.range a) none)).Renders list asked l' w'
      ∧ (s.accepts (.fetched (.range a) none) ↔ s.Open list.id a.token)
      ∧ (∀ token, (s.receive (.fetched (.range a) none)).Open list.id token
        ↔ s.Open list.id token ∧ token ≠ a.token)
      ∧ (¬s.Open list.id a.token → w' = w)
      ∧ (s.Open list.id a.token → w'.start = min a.start w.start
        ∧ w'.start + w'.count = max (a.start + a.items.length) (w.start + w.count)) := by
  have last := gives.last
  have bounds := inRange_of_known gives.minimum gives.maximum room
  have inRange : a.InRange := ⟨inRange_of_room room gives.low (by omega), bounds.1, bounds.2⟩
  have room' := Int.le_trans last room
  have own := gives.listId
  have loads : s.Loads a.listId asked l w := own.symm ▸ renders.loads
  obtain ⟨l', w', receipt, loads'⟩ := loads.receive inRange gives.version room' taken
  have opened := receipt.open_iff loads.sound
  have received : s.receive (.fetched (.range a) none) = (s.apply Kind.index.name a.toJson).1 := rfl
  have accepted : s.accepts (.fetched (.range a) none)
      = (s.apply Kind.index.name a.toJson).2.isOk := rfl
  rw [received, accepted, ← own]
  generalize s.apply Kind.index.name a.toJson = result at receipt loads' opened ⊢
  obtain ⟨next, outcome⟩ := result
  cases receipt with
  -- nobody waits for the answer any more, so it is dropped
  | late why settled entry =>
    have closed : ¬s.Open a.listId a.token := fun ⟨r, pending, named⟩ => settled r pending named
    exact ⟨l, w, ⟨own ▸ loads', renders.excerpt, renders.minimum, renders.maximum⟩,
      iff_of_false Bool.false_ne_true closed, opened, fun _ => rfl,
      fun pending => absurd pending closed⟩
  | absorbed applied pending named touches absorbed entry =>
    have pending' : s.Open a.listId a.token := ⟨_, pending, named⟩
    obtain ⟨w'', taken, ends⟩ := renders.absorb_of_gives room gives touches
      (Target.span a.start a.items.length)
    obtain ⟨rfl, rfl⟩ := Prod.mk.inj (Except.ok.inj (absorbed.symm.trans taken))
    have learnt := IndexWindow.bounds_of_absorb absorbed
    rw [gives.minimum, gives.maximum] at learnt
    obtain ⟨minimum, maximum⟩ := Prod.mk.inj learnt
    have cleared : list.source.Excerpt l (w.clear (Target.span a.start a.items.length)) :=
      renders.excerpt.keep rfl rfl rfl
    have offers : list.source.Offers a.start a.items :=
      .inr ⟨gives.low, list.stop_source ▸ gives.last, gives.items⟩
    have excerpt := cleared.absorbed loads.placed inRange.start room' offers absorbed (.index w')
    exact ⟨_, w', ⟨own ▸ loads', excerpt, minimum, maximum⟩, iff_of_true rfl pending', opened,
      fun closed => absurd pending' closed, fun _ => ends⟩
  -- an answer to a range that touches the window is never refused
  | detached why pending named touches absorbed entry =>
    obtain ⟨w', accepted, -⟩ := renders.absorb_of_gives room gives touches
      (Target.span a.start a.items.length)
    cases accepted.symm.trans absorbed

/-- To want an index is to ask for ranges within the list only. The loaded items stay as they are.
-/
theorem Renders.want (renders : s.Renders list asked l w) {i : Int} (inRange : Index.InRange i)
    {next : Session} {new : List FetchRequest} (wanted : s.want list.id i = (next, new)) :
    ∃ l' w', next.Renders list (asked ++ new) l' w'
      ∧ (∀ f ∈ new, Inside list f)
      ∧ (∀ token, next.Open list.id token ↔ s.Open list.id token ∨ token ∈ new.map (·.token))
      ∧ w'.start = w.start ∧ w'.count = w.count := by
  obtain ⟨rs, taken, targets, listIds, requests, loads⟩ := renders.loads.want inRange
  rw [wanted] at taken requests loads
  dsimp only at taken requests loads
  subst taken
  refine ⟨_, _, ⟨loads, renders.excerpt.keep rfl rfl rfl, renders.minimum, renders.maximum⟩, ?_, ?_,
    rfl, rfl⟩
  · intro f hf
    obtain ⟨r, hr, rfl⟩ := List.mem_map.1 hf
    obtain ⟨range, planned, target⟩ := range_of_targets targets hr
    have proper := (IndexWindow.inRange_of_plan renders.loads.fits.start inRange planned).2.2
    have low := renders.low
    have last := renders.last
    have stop := renders.loads.stop
    -- what is planned stays within the bounds, and these are the ends of the list
    obtain ⟨first, bound⟩ := IndexWindow.within_of_plan inRange renders.minimum renders.maximum
      (by omega) (by omega) planned
    refine ⟨range.start, range.length, ?_, first, ?_⟩
    · rw [r.token_toFetch, Request.toFetch, target, listIds r hr]
    · rw [Span.length]
      omega
  · exact open_of_append requests

/-- A session that has loaded a range of a list shows it. -/
theorem renders_loaded {s : Session} (sound : s.core.Sound)
    (unfinished : s.finished = false) (version : list.version ≤ maxCount)
    (room : (list.items.length : Int) ≤ Index.greatest) (q : Query) :
    s.accepts (.loaded (.index (list.rangeListing q)) none)
      ∧ (s.receive (.loaded (.index (list.rangeListing q)) none)).Renders list []
        (list.rangeListing q).list (list.rangeListing q).window := by
  -- the slice that is loaded lies in the list, so its payload is accepted as it is
  have length := list.length_sliceItems (q.start.getD 0) (q.count.getD list.pageSize)
  have last := (list.slice_le (q.start.getD 0) (q.count.getD list.pageSize)).2
  have low : 0 ≤ (list.rangeListing q).start := Int.natCast_nonneg _
  have within : (list.rangeListing q).start + (list.rangeListing q).items.length
      ≤ list.items.length := by
    show ((list.slice _ _).1 : Int) + (list.sliceItems (list.slice _ _)).length ≤ _
    omega
  have inRange : (Listing.index (list.rangeListing q)).InRange :=
    ⟨inRange_of_room room low (by omega), inRange_of_known rfl rfl room⟩
  have valid : (list.rangeListing q).window.fault? = none :=
    IndexWindow.fault?_of_known low rfl rfl within room
  have version' : ∀ v ∈ (list.rangeListing q).version, v ≤ maxCount := by
    rintro _ ⟨⟩
    exact version
  have registered := register_listing unfinished inRange version' valid
  refine ⟨?_, loads_register sound unfinished inRange version' valid, ⟨low, ?_, ?_⟩, rfl, rfl⟩
  · show (s.register Kind.index.name _).2.isOk = true
    rw [registered]
    rfl
  · rw [list.stop_source]
    exact within
  · exact list.sliceItems_eq _ _

end Session

end ListSync
