import ListSync.Edit.Splice
import ListSync.Proofs.Session.Effect
import ListSync.Proofs.Window

/-!
# The law of the bounds

The loaded items of an index list end at an index, and within the bounds of the list as far as these
are known. Registrations and answers are checked for that before they are accepted. A batch is not:
after it the law holds exactly when the items that are then loaded still end at an index, so it
holds all along a run exactly when no batch makes a list outgrow the range (`bounds_always_iff`).
-/

namespace ListSync.Session

/-- A statement about what is known of a list, if that is an index list. -/
def Entry.Index (e : Entry) (P : LoadedList → IndexWindow → List Request → Prop) : Prop :=
  ∀ l w, e.list? = some l → l.window = .index w → P l w e.requests

/-- Of an index list that is there, a statement speaks of its list, its window and its requests. -/
theorem Entry.index_some {l : LoadedList} {w : IndexWindow} {rs : List Request}
    {P : LoadedList → IndexWindow → List Request → Prop} (loaded : l.window = .index w) :
    Entry.Index ⟨some l, rs⟩ P ↔ P l w rs := by
  constructor
  · intro h
    exact h l w rfl loaded
  · rintro h l' w' ⟨⟩ loaded'
    cases loaded.symm.trans loaded'
    exact h

/-- Every statement about an index list holds where there is no list. -/
theorem Entry.index_none {rs : List Request}
    {P : LoadedList → IndexWindow → List Request → Prop} : Entry.Index ⟨none, rs⟩ P := by
  rintro l w ⟨⟩

/-- Every statement about an index list holds of a token list. -/
theorem Entry.index_token {l : LoadedList} {w : TokenWindow} {rs : List Request}
    {P : LoadedList → IndexWindow → List Request → Prop} (loaded : l.window = .token w) :
    Entry.Index ⟨some l, rs⟩ P := by
  rintro l' w' ⟨⟩ loaded'
  cases loaded.symm.trans loaded'

/-- The loaded items of an index list begin and end at an index, within the known bounds. -/
structure WithinBounds (w : IndexWindow) : Prop where
  sound : w.fault? = none
  stop : Index.InRange (w.start + w.count)
  minimum : ∀ lo ∈ w.minimum, lo ≤ w.start
  ordered : w.start ≤ w.start + w.count
  maximum : ∀ hi ∈ w.maximum, w.start + w.count ≤ hi

/-- All index lists keep the law of the bounds. -/
def BoundsLaw (s : Session) : Prop :=
  ∀ listId l w, s.find? listId = some l → l.window = .index w → WithinBounds w

/-- Whether the loaded items of a list do not end at an index any more once it is edited. -/
def outgrows (l : LoadedList) (edits : List (Edit Item)) : Bool :=
  match l.window with
  | .index w =>
    Index.greatest < (applyEdits l.items edits).1.length
      || Index.greatest < w.start + (applyEdits l.items edits).1.length
  | .token _ => false

/-- A move hands a session a batch that it accepts and that makes a list outgrow the range. -/
def Overgrows (s : Session) (m : Move) : Prop := ∃ e ∈ m.edits? s, outgrows e.1 e.2.edits

instance (s : Session) (m : Move) : Decidable (Overgrows s m) :=
  inferInstanceAs (Decidable (∃ e ∈ m.edits? s, outgrows e.1 e.2.edits = true))

/-- The window of an index list begins at an index, counts the loaded items and keeps the law of the
bounds. -/
structure Fits (l : LoadedList) (w : IndexWindow) : Prop where
  start : Index.InRange w.start
  count : w.count = l.items.length
  valid : w.Valid

/-- A window that fits its list keeps the law of the bounds. -/
theorem Fits.withinBounds {l : LoadedList} {w : IndexWindow} (h : Fits l w) : WithinBounds w := by
  obtain ⟨start, -, valid⟩ := h
  -- the end of a valid window is not bent back into the range
  have stop : w.stop = w.start + w.count := by
    have := valid.count_le
    have := valid.end_le
    simp only [IndexWindow.stop, Index.add, Index.clamp, Index.ofCount, Index.InRange] at *
    omega
  refine ⟨(IndexWindow.fault?_eq_none_iff w).2 valid, ⟨?_, valid.end_le⟩, valid.minimum_le,
    by omega, ?_⟩
  · exact Int.le_trans start.1 (by omega)
  · intro hi known
    rw [← stop]
    exact valid.le_maximum hi known

/-- An edited index list keeps the law exactly when it does not outgrow the range. -/
theorem Fits.edited_iff {l : LoadedList} {w : IndexWindow} (h : Fits l w)
    (loaded : l.window = .index w) (edits : List (Edit Item)) :
    (w.adjust (applyEdits l.items edits).2.delta).Valid ↔ ¬outgrows l edits := by
  rw [delta_applyEdits, ← h.count, IndexWindow.valid_adjust_iff h.valid h.start, outgrows, loaded]
  simp

/-- An edited list fits its adjusted window if that is a valid one. -/
theorem Fits.edited {l : LoadedList} {w : IndexWindow} (h : Fits l w) {edits : List (Edit Item)}
    (valid : (w.adjust (applyEdits l.items edits).2.delta).Valid) (window : Window) :
    Fits { l with items := (applyEdits l.items edits).1, window }
      (w.adjust (applyEdits l.items edits).2.delta) := by
  refine ⟨h.start, ?_, valid⟩
  -- all items are counted, as there are no more of them than positive indices
  have fits := ((IndexWindow.valid_adjust_iff h.valid h.start _).1
    (by rwa [delta_applyEdits, ← h.count] at valid)).1
  have counted := h.count
  rw [delta_applyEdits]
  simp only [IndexWindow.adjust, maxCount, Index.greatest] at fits ⊢
  omega

/-- What is in flight has no part in the law. -/
theorem Fits.withInFlight {l : LoadedList} {w : IndexWindow} (h : Fits l w) (inFlight : List Span)
    (window : Window) : Fits { l with window } { w with inFlight } where
  start := h.start
  count := h.count
  valid := ⟨h.valid.count_le, h.valid.end_le, h.valid.minimum_le, h.valid.le_maximum⟩

/-- A list that is taken in has been checked. -/
theorem fits_ofPayload {p : Listing} {l : LoadedList} {w : IndexWindow} (inRange : p.InRange)
    (read : LoadedList.ofPayload p = .ok l) (loaded : l.window = .index w) : Fits l w := by
  cases p with
  | token p =>
    cases read
    cases loaded
  | index p =>
    simp only [LoadedList.ofPayload, IndexWindow.create] at read
    cases sound : (IndexWindow.mk p.minimum p.maximum p.start p.items.length []).fault? with
    | some fault => simp [sound] at read
    | none =>
      simp only [sound] at read
      cases read
      cases loaded
      exact ⟨inRange.1, rfl, (IndexWindow.fault?_eq_none_iff _).1 sound⟩

/-- Nothing is in flight for a list that is taken in. -/
theorem inFlight_ofPayload {p : Listing} {l : LoadedList} {w : IndexWindow}
    (read : LoadedList.ofPayload p = .ok l) (loaded : l.window = .index w) : w.inFlight = [] := by
  cases p with
  | token p =>
    cases read
    cases loaded
  | index p =>
    simp only [LoadedList.ofPayload, IndexWindow.create] at read
    split at read
    · rename_i created
      split at created
      · cases created
      · cases created
        cases read
        cases loaded
        rfl
    · cases read

/-- A window that counts the loaded items counts those of a fetched range that come in as well. -/
theorem count_absorbed {items fetched : List Item} {w next : IndexWindow} {start : Int}
    {p : IndexWindow.MergePlan} (counted : w.count = items.length)
    (absorbed : IndexWindow.Absorbed w start fetched.length p next) :
    next.count
      = (fetched.take p.front.stop ++ items ++ fetched.drop p.back.start).length := by
  obtain ⟨⟨front_start, front_stop, back_stop, -⟩, -, -, counts⟩ := absorbed
  have front : (fetched.take p.front.stop).length = p.front.length := by
    rw [List.length_take, IndexWindow.Slice.length, front_start]
    omega
  have back : (fetched.drop p.back.start).length = p.back.length := by
    rw [List.length_drop, IndexWindow.Slice.length, back_stop]
  rw [counts, List.length_append, List.length_append, front, back, IndexWindow.MergePlan.length]
  omega

/-- A fetched range that is put to a list has been checked. -/
theorem Fits.absorbed {l : LoadedList} {w next : IndexWindow} (h : Fits l w) {start : Int}
    {fetched : List Item} {p : IndexWindow.MergePlan} (inRange : Index.InRange start)
    (absorbed : IndexWindow.Absorbed w start fetched.length p next) (window : Window) :
    Fits { l with
        items := fetched.take p.front.stop ++ l.items ++ fetched.drop p.back.start
        window } next := by
  refine ⟨?_, count_absorbed h.count absorbed, absorbed.valid⟩
  rcases absorbed.begins with same | before
  · rw [same]
    exact h.start
  · rw [before]
    exact inRange

variable {s : Session} {m : Move}

/-- All index lists begin at an index. -/
def AllStart (s : Session) : Prop :=
  ∀ listId, (s.entry listId).Index fun _ w _ => Index.InRange w.start

/-- Whatever a move does to an index list, it begins at an index. -/
theorem AllStart.effect (h : AllStart s) {listId : ListId} {e : Entry}
    (effect : Effect s m listId e) : e.Index fun _ w _ => Index.InRange w.start := by
  cases effect with
  | kept => exact h listId
  | gone => exact Entry.index_none
  | installed inRange read =>
    rintro l w ⟨⟩ loaded
    exact (fits_ofPayload inRange read loaded).start
  | edited update accepted found own =>
    rename_i u l b
    cases loaded : l.window with
    | token w => exact Entry.index_token rfl
    | index w =>
      refine (Entry.index_some rfl).2 ?_
      exact h listId l w found loaded
  | merged update answered own loaded range absorbed =>
    rename_i u l r a w window asked plan
    subst own
    have start : Index.InRange (w.clear asked).start := h r.listId l w answered.found loaded
    have inRange := (answered.readFrom.inRange a rfl).start
    have taken := IndexWindow.absorbed_of_absorb start inRange absorbed
    refine (Entry.index_some rfl).2 ?_
    -- the window begins where it did, or where the answer does
    rcases taken.begins with same | before
    · rw [same]
      exact start
    · rw [before]
      exact inRange
  | detached update answered own loaded range =>
    subst own
    have start := h _ _ _ answered.found loaded
    refine (Entry.index_some rfl).2 ?_
    exact start
  | joined => exact Entry.index_token rfl
  | mispaged => exact Entry.index_token rfl
  | fetched inRange ranges found loaded targets =>
    have start := h listId _ _ found loaded
    refine (Entry.index_some rfl).2 ?_
    exact start
  | turned => exact Entry.index_token rfl

/-- Every index list begins at an index after every move. -/
theorem AllStart.step (h : AllStart s) (sound : s.core.Sound) (m : Move) : AllStart (s.step m) :=
  fun listId => h.effect ((effects_step sound m).effect listId)

/-- There is no list in a new session that could begin elsewhere. -/
theorem allStart_create {policy : Policy} (created : create policy = .ok s) : AllStart s := by
  obtain ⟨policy', -, rfl⟩ := eq_of_create created
  exact fun _ => Entry.index_none

/-- All index lists fit, and names, handles and tokens agree. -/
structure AllFit (s : Session) : Prop where
  sound : s.core.Sound
  fits : ∀ listId, (s.entry listId).Index fun l w _ => Fits l w

/-- The window that an answer meets fits its list. -/
theorem AllFit.of_answered {u : QueuedUpdate} {answer : Update} {l : LoadedList} {r : Request}
    {w : IndexWindow} (h : AllFit s) (answered : Answered s u answer l r)
    (loaded : l.window = .index w) : Fits l w :=
  h.fits r.listId l w answered.found loaded

/-- What a move does to an index list leaves it fitting, unless a batch makes it outgrow the
range. -/
theorem AllFit.effect (h : AllFit s) (kept : ¬Overgrows s m) {listId : ListId} {e : Entry}
    (effect : Effect s m listId e) : e.Index fun l w _ => Fits l w := by
  cases effect with
  | kept => exact h.fits listId
  | gone => exact Entry.index_none
  | installed inRange read =>
    rintro l w ⟨⟩ loaded
    exact fits_ofPayload inRange read loaded
  | edited update accepted found own =>
    rename_i u l b
    cases loaded : l.window with
    | token w => exact Entry.index_token rfl
    | index w =>
      have fits := h.fits listId l w found loaded
      refine (Entry.index_some rfl).2 (fits.edited ?_ _)
      -- this is the one effect that can break the law, and the move is not one that does
      rw [fits.edited_iff loaded]
      intro beyond
      exact kept ⟨(l, b), Move.edits?_of_update? update accepted, beyond⟩
  | merged update answered own loaded range absorbed =>
    rename_i u l r a w window asked plan
    have cleared : Fits l (w.clear asked) := (h.of_answered answered loaded).withInFlight _ l.window
    have inRange := (answered.readFrom.inRange a rfl).start
    have taken := IndexWindow.absorbed_of_absorb cleared.start inRange absorbed
    exact (Entry.index_some rfl).2 (cleared.absorbed inRange taken _)
  | detached update answered own loaded range =>
    have fits := h.of_answered answered loaded
    exact (Entry.index_some rfl).2 (fits.withInFlight _ _)
  | joined => exact Entry.index_token rfl
  | mispaged => exact Entry.index_token rfl
  | fetched inRange ranges found loaded targets =>
    have fits := h.fits listId _ _ found loaded
    exact (Entry.index_some rfl).2 (fits.withInFlight _ _)
  | turned => exact Entry.index_token rfl

/-- All index lists fit after a move that makes none of them outgrow the range. -/
theorem AllFit.step (h : AllFit s) (kept : ¬Overgrows s m) : AllFit (s.step m) where
  sound := (effects_step h.sound m).sound
  fits listId := h.effect kept ((effects_step h.sound m).effect listId)

/-- Where all index lists fit, they keep the law of the bounds. -/
theorem AllFit.boundsLaw (h : AllFit s) : BoundsLaw s :=
  fun listId l w found loaded => (h.fits listId l w found loaded).withinBounds

/-- A batch that makes an index list outgrow the range breaks the law. -/
theorem AllFit.not_overgrows (h : AllFit s) (law : BoundsLaw (s.step m)) : ¬Overgrows s m := by
  rintro ⟨⟨l, b⟩, edits, beyond⟩
  obtain ⟨u, update, accepted⟩ := Option.bind_eq_some_iff.1 edits
  obtain ⟨-, found, -⟩ := edits?_eq_some_iff.1 accepted
  cases loaded : l.window with
  | token w => simp [outgrows, loaded] at beyond
  | index w =>
    have fits := h.fits b.listId l w found loaded
    have after := congrArg Entry.list? (entry_of_edits? h.sound update accepted)
    have sound := (law b.listId _ _ after (by rw [loaded]; rfl)).sound
    rw [IndexWindow.fault?_eq_none_iff, fits.edited_iff loaded] at sound
    exact sound beyond

/-- There is no list in a new session that could fail to fit. -/
theorem allFit_create {policy : Policy} (created : create policy = .ok s) : AllFit s where
  sound := sound_create created
  fits listId := by
    obtain ⟨policy', -, rfl⟩ := eq_of_create created
    exact Entry.index_none

/-- The law of the bounds holds all along a run of a session exactly when no batch of the run makes
an index list outgrow the range of indices. -/
theorem bounds_always_iff {policy : Policy} (created : create policy = .ok s) (moves : List Move) :
    s.Always BoundsLaw moves ↔ s.Throughout (fun s m => ¬Overgrows s m) moves :=
  always_iff_throughout (fun _ h => h.boundsLaw) (fun _ _ h kept => h.step kept)
    (fun _ _ h law => h.not_overgrows law) (allFit_create created) moves

/-- A host registers a list with one item that starts at an index, and then a second item is
put behind the first. -/
def appendAt (start : Int) : List Move :=
  [.register "dynamicIndexList" (.obj [("listId", .str "l"), ("listVersion", Json.ofNat 0),
      ("startIndex", Json.ofInt start), ("items", .arr [.str "a"])]),
    .apply "dynamicIndexList" (.obj [("listId", .str "l"), ("listVersion", Json.ofNat 1),
      ("operations", .arr [(Edit.insert 1 (.str "b")).toJson])])]

/-- In the middle of the range the law holds all along. -/
theorem bounds_always_append : ({} : Session).Always BoundsLaw (appendAt 0) :=
  (bounds_always_iff (show create {} = .ok {} from rfl) (appendAt 0)).2 (by decide)

/-- At the end of the range the batch is accepted, and breaks the law. -/
theorem bounds_broken_append :
    Reachable (({} : Session).run (appendAt (Index.greatest - 1)))
    ∧ (({} : Session).run (appendAt (Index.greatest - 1))).version? "l" = some 1
    ∧ ¬BoundsLaw (({} : Session).run (appendAt (Index.greatest - 1))) := by
  refine ⟨reachable_default.run _, by decide, ?_⟩
  intro law
  have broken := law "l" ⟨"l", [.str "a", .str "b"],
    .index ⟨none, none, Index.greatest - 1, 2, []⟩⟩ _ (by decide) rfl
  exact absurd broken.sound (by decide)

end ListSync.Session
