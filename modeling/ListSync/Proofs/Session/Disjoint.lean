import ListSync.Proofs.Plan
import ListSync.Proofs.Session.Bounds

/-!
# Ranges in flight that lie apart

A range is asked for only where it overlaps no range in flight. A batch then moves the ranges that
begin behind the loaded items, and leaves the others where they are. Such another one can reach
behind the loaded items, or lie among them, when an answer has brought more than was asked for.
All along a run no index lies in two ranges in flight of a list exactly when no batch moves a range
into one that stays (`apart_always_iff`).
-/

namespace ListSync

/-- Spans that move by the same distance stay apart, also where they stop at an end of the index
range. -/
theorem Span.Apart.shift {a b : Span} (h : a.Apart b) (delta : Int) :
    (a.shift delta).Apart (b.shift delta) := by
  rw [Span.apart_iff] at h ⊢
  simp only [Span.shift, Index.add, Index.clamp]
  omega

namespace IndexWindow

variable {w : IndexWindow}

/-- Where a range in flight is once the number of loaded items has changed. -/
def moved (w : IndexWindow) (delta : Int) (range : Span) : Span :=
  if w.stop ≤ range.start then range.shift delta else range

/-- A range at the end of the window, or behind it, moves along with a batch. -/
theorem moved_of_le {range : Span} (behind : w.stop ≤ range.start) (delta : Int) :
    w.moved delta range = range.shift delta := if_pos behind

/-- A range that begins before the end of the window stays where it is. -/
theorem moved_of_lt {range : Span} (before : range.start < w.stop) (delta : Int) :
    w.moved delta range = range := if_neg (Int.not_le.2 before)

/-- Whether the ranges in flight that move with the end of the loaded items stay apart from those
that do not move. -/
def movesApart (w : IndexWindow) (delta : Int) : Bool :=
  w.inFlight.all fun a => w.inFlight.all fun b =>
    decide (a.start < w.stop → w.stop ≤ b.start → a.Apart (b.shift delta))

/-- A batch keeps ranges apart if those that stay are apart from those that move. -/
theorem movesApart_iff {delta : Int} : w.movesApart delta ↔ ∀ a ∈ w.inFlight, ∀ b ∈ w.inFlight,
    a.start < w.stop → w.stop ≤ b.start → a.Apart (b.shift delta) := by
  simp only [movesApart, List.all_eq_true, decide_eq_true_eq]

/-- After a batch ranges in flight are apart exactly when those that move stay apart from the
others. -/
theorem pairwise_adjust_iff (apart : w.inFlight.Pairwise Span.Apart) (delta : Int) :
    (w.adjust delta).inFlight.Pairwise Span.Apart ↔ w.movesApart delta := by
  have moves : (w.adjust delta).inFlight = w.inFlight.map (w.moved delta) := rfl
  rw [moves, List.pairwise_map, movesApart_iff]
  constructor
  · intro after a ha b hb before behind
    -- the two are different, as only one of them begins behind the loaded items
    have different : a ≠ b := by
      rintro rfl
      omega
    have swaps : Std.Symm fun a b => (w.moved delta a).Apart (w.moved delta b) :=
      ⟨fun _ _ h => h.symm⟩
    have both := after.forall ha hb different
    rwa [moved_of_lt before, moved_of_le behind] at both
  · intro kept
    refine apart.imp_of_mem ?_
    intro a b ha hb h
    rcases Int.lt_or_le a.start w.stop with before | behind
    · rw [moved_of_lt before]
      rcases Int.lt_or_le b.start w.stop with before' | behind'
      · rwa [moved_of_lt before']
      · rw [moved_of_le behind']
        exact kept a ha b hb before behind'
    · rw [moved_of_le behind]
      rcases Int.lt_or_le b.start w.stop with before' | behind'
      · rw [moved_of_lt before']
        exact (kept b hb a ha before' behind).symm
      · rw [moved_of_le behind']
        exact h.shift delta

end IndexWindow

namespace Session

/-- For all index lists, no index lies in two ranges in flight. -/
def ApartLaw (s : Session) : Prop :=
  ∀ listId l w, s.find? listId = some l → l.window = .index w → w.inFlight.Pairwise Span.Apart

/-- Whether a batch for a list moves no range in flight into one that stays. -/
def editsApart (l : LoadedList) (edits : List (Edit Item)) : Bool :=
  match l.window with
  | .index w => w.movesApart (applyEdits l.items edits).2.delta
  | .token _ => true

/-- A move hands a session no batch that it accepts and that moves a range in flight into one that
stays. -/
def MovesApart (s : Session) (m : Move) : Prop := ∀ e ∈ m.edits? s, editsApart e.1 e.2.edits

instance (s : Session) (m : Move) : Decidable (MovesApart s m) :=
  inferInstanceAs (Decidable (∀ e ∈ m.edits? s, editsApart e.1 e.2.edits = true))

/-- Names, handles and tokens agree, and for every index list the ranges in flight are apart. -/
structure AllApart (s : Session) : Prop where
  sound : s.core.Sound
  starts : AllStart s
  apart : ∀ listId, (s.entry listId).Index fun _ w _ => w.inFlight.Pairwise Span.Apart

variable {s : Session} {m : Move}

/-- A move leaves the ranges in flight of a list apart, unless a batch moves one into another. -/
theorem AllApart.effect (h : AllApart s) (kept : MovesApart s m) {listId : ListId} {e : Entry}
    (effect : Effect s m listId e) : e.Index fun _ w _ => w.inFlight.Pairwise Span.Apart := by
  cases effect with
  | kept => exact h.apart listId
  | gone => exact Entry.index_none
  | installed inRange read =>
    rintro l w ⟨⟩ loaded
    rw [inFlight_ofPayload read loaded]
    exact List.Pairwise.nil
  | edited update accepted found own =>
    rename_i u l b
    cases loaded : l.window with
    | token w => exact Entry.index_token rfl
    | index w =>
      -- the one effect that moves ranges; whether they stay apart is what the move was asked for
      have keeps := kept (l, b) (Move.edits?_of_update? update accepted)
      simp only [editsApart, loaded] at keeps
      exact (Entry.index_some rfl).2
        ((IndexWindow.pairwise_adjust_iff (h.apart listId l w found loaded) _).2 keeps)
  | merged update answered own loaded range absorbed =>
    subst own
    refine (Entry.index_some rfl).2 ?_
    rw [IndexWindow.inFlight_of_absorb absorbed]
    exact (h.apart _ _ _ answered.found loaded).filter _
  | detached update answered own loaded range =>
    subst own
    exact (Entry.index_some rfl).2 ((h.apart _ _ _ answered.found loaded).filter _)
  | joined => exact Entry.index_token rfl
  | mispaged => exact Entry.index_token rfl
  | fetched inRange asked found loaded targets =>
    -- what is planned was made to miss all that is in flight
    exact (Entry.index_some rfl).2 (IndexWindow.apart_plan
      (h.starts listId _ _ found loaded).2 inRange (h.apart listId _ _ found loaded))
  | turned => exact Entry.index_token rfl

/-- Ranges in flight stay apart over a move that moves none of them into another. -/
theorem AllApart.step (h : AllApart s) (kept : MovesApart s m) : AllApart (s.step m) where
  sound := (effects_step h.sound m).sound
  starts := h.starts.step h.sound m
  apart listId := h.effect kept ((effects_step h.sound m).effect listId)

/-- A batch that moves a range in flight into one that stays breaks the law. -/
theorem AllApart.movesApart (h : AllApart s) (law : ApartLaw (s.step m)) : MovesApart s m := by
  rintro ⟨l, b⟩ edits
  obtain ⟨u, update, accepted⟩ := Option.bind_eq_some_iff.1 edits
  obtain ⟨-, found, -⟩ := edits?_eq_some_iff.1 accepted
  cases loaded : l.window with
  | token w => simp only [editsApart, loaded]
  | index w =>
    have after := congrArg Entry.list? (entry_of_edits? h.sound update accepted)
    have apart := law b.listId _ _ after (by rw [loaded]; rfl)
    simp only [editsApart, loaded]
    exact (IndexWindow.pairwise_adjust_iff (h.apart b.listId l w found loaded) _).1 apart

/-- No ranges are in flight in a new session. -/
theorem allApart_create {policy : Policy} (created : create policy = .ok s) : AllApart s := by
  obtain ⟨policy', -, rfl⟩ := eq_of_create created
  exact ⟨sound_create created, allStart_create created, fun _ => Entry.index_none⟩

/-- All along a run of a session no index lies in two ranges in flight of a list exactly when no
batch of the run moves a range in flight into one that stays. -/
theorem apart_always_iff {policy : Policy} (created : create policy = .ok s) (moves : List Move) :
    s.Always ApartLaw moves ↔ s.Throughout MovesApart moves :=
  always_iff_throughout (fun _ h listId l w found loaded => h.apart listId l w found loaded)
    (fun _ _ h kept => h.step kept) (fun _ _ h law => h.movesApart law) (allApart_create created)
    moves

/-- A host registers a list that begins at index zero and wants the items on both sides of it. What
comes from `start` on for the one before may be more than was asked for. The host wants one more
item, and then the first two items are removed. -/
def removeAmidFlights (items : List Item) (start : Int) (fetched : List Item) (last : Int)
    (inRange : Index.InRange last) : List Move :=
  [.register "dynamicIndexList" (.obj [("listId", .str "l"), ("listVersion", Json.ofNat 0),
      ("startIndex", Json.ofInt 0), ("items", .arr items)]),
    .ensureIndex "l" 1 inRange_one, .ensureIndex "l" (-1) (by decide),
    .apply "dynamicIndexList" (.obj [("listId", .str "l"), ("correlationToken", .str "102"),
      ("startIndex", Json.ofInt start), ("items", .arr fetched)]),
    .ensureIndex "l" last inRange,
    .apply "dynamicIndexList" (.obj [("listId", .str "l"), ("listVersion", Json.ofNat 1),
      ("operations", .arr [(Edit.deleteMany 0 2).toJson])])]

/-- Where the item before the list comes alone, the law holds all along. -/
theorem apart_always_single : ({ policy := ⟨1, 0⟩ } : Session).Always ApartLaw
    (removeAmidFlights [.str "a"] (-1) [.str "z"] (-2) (by decide)) :=
  (apart_always_iff created_single _).2 (by decide)

/-- The item before the list comes with three more, so that a range that was asked for before lies
amid the loaded items and stays in flight. The batch moves the one behind them onto it. -/
def surplus : List Move :=
  removeAmidFlights [.str "a"] (-1) [.str "z", .str "a", .str "b", .str "c"] 3
    inRange_three

/-- With such a surplus the law breaks. -/
theorem apart_broken_surplus :
    Reachable (({ policy := ⟨1, 0⟩ } : Session).run surplus)
    ∧ (({ policy := ⟨1, 0⟩ } : Session).run surplus).finished = false
    ∧ ¬ApartLaw (({ policy := ⟨1, 0⟩ } : Session).run surplus) := by
  refine ⟨(Reachable.create created_single).run _, by decide, ?_⟩
  intro law
  have apart := law "l" ⟨"l", [.str "b", .str "c"],
    .index ⟨none, none, -1, 2, [⟨1, 2⟩, ⟨1, 2⟩]⟩⟩ _ (by decide) rfl
  exact absurd apart (by decide)

end Session

end ListSync
