import ListSync.Proofs.Session.Bounds

/-!
# Items and windows agree on what is loaded

The window of an index list counts the loaded items on its own: a batch moves the count by the
difference that it makes, a fetched range by the lengths of the parts that are planned to be merged,
while the items themselves are cut and joined elsewhere. The two never fall out of step
(`Counts.effect`), whatever comes of the bounds of the list, so every index of the loaded range has
its item and no other index has one (`places_always`).
-/

namespace ListSync.Session

/-- The loaded items are counted, and those at the indices of the loaded range are found there. -/
structure Placed (l : LoadedList) (w : IndexWindow) : Prop where
  count : w.count = l.items.length
  inside : ∀ i, w.start ≤ i → i < w.stop →
    ∃ h : (i - w.start).toNat < l.items.length, l.getIndex? i = some l.items[(i - w.start).toNat]
  outside : ∀ i, ¬(w.start ≤ i ∧ i < w.stop) → l.getIndex? i = none

/-- After a move no list has more items than a count can tell. -/
def StaysCountable (s : Session) (m : Move) : Prop :=
  ∀ slot ∈ (s.step m).lists.slots, ∀ l ∈ slot, l.items.length ≤ maxCount

instance (s : Session) (m : Move) : Decidable (StaysCountable s m) :=
  inferInstanceAs (Decidable (∀ slot ∈ (s.step m).lists.slots, ∀ l ∈ slot, _))

variable {s : Session} {m : Move} {l : LoadedList} {w : IndexWindow}

/-- Items that are counted are in their places. -/
theorem placed_of_count (loaded : l.window = .index w) (start : Index.InRange w.start)
    (count : w.count = l.items.length) : Placed l w := by
  have stop := IndexWindow.stop_le start
  refine ⟨count, ?_, ?_⟩
  · intro i first last
    have within : (i - w.start).toNat < l.items.length := by omega
    have covered : w.contains i := (w.contains_iff i).2 ⟨first, last⟩
    refine ⟨within, ?_⟩
    rw [LoadedList.getIndex?, loaded]
    simp only [IndexWindow.position?, covered, if_true, Option.bind_some]
    exact List.getElem?_eq_getElem within
  · intro i apart
    have uncovered : ¬w.contains i := fun covered => apart ((w.contains_iff i).1 covered)
    rw [LoadedList.getIndex?, loaded]
    simp only [IndexWindow.position?, if_neg uncovered, Option.bind_none]

/-- The windows of all index lists count the loaded items. -/
structure Counts (s : Session) : Prop where
  sound : s.core.Sound
  starts : AllStart s
  counted : ∀ listId, (s.entry listId).Index fun l w _ => w.count = l.items.length

/-- Whatever a move does to an index list, its window counts the loaded items, as long as a count
can tell their number. -/
theorem Counts.effect (h : Counts s) {listId : ListId} {e : Entry} (effect : Effect s m listId e)
    (countable : ∀ l ∈ e.list?, l.items.length ≤ maxCount) :
    e.Index fun l w _ => w.count = l.items.length := by
  cases effect with
  | kept => exact h.counted listId
  | gone => exact Entry.index_none
  | installed inRange read =>
    rintro l w ⟨⟩ loaded
    exact (fits_ofPayload inRange read loaded).count
  | edited update accepted found own =>
    rename_i u l b
    cases loaded : l.window with
    | token w => exact Entry.index_token rfl
    | index w =>
      have counted := h.counted listId l w found loaded
      have fits : (applyEdits l.items b.edits).1.length ≤ maxCount := countable _ rfl
      refine (Entry.index_some rfl).2 ?_
      -- the difference leads from the one number of items to the other
      rw [delta_applyEdits]
      simp only [IndexWindow.adjust]
      omega
  | merged update answered own loaded range absorbed =>
    rename_i u l r a w window asked plan
    subst own
    have start : Index.InRange (w.clear asked).start := h.starts r.listId l w answered.found loaded
    have counted : (w.clear asked).count = l.items.length :=
      h.counted r.listId l w answered.found loaded
    have inRange := (answered.readFrom.inRange a rfl).start
    have taken := IndexWindow.absorbed_of_absorb start inRange absorbed
    exact (Entry.index_some rfl).2 (count_absorbed counted taken)
  | detached update answered own loaded range =>
    subst own
    have counted := h.counted _ _ _ answered.found loaded
    refine (Entry.index_some rfl).2 ?_
    exact counted
  | joined => exact Entry.index_token rfl
  | mispaged => exact Entry.index_token rfl
  | fetched inRange ranges found loaded targets =>
    have counted := h.counted listId _ _ found loaded
    refine (Entry.index_some rfl).2 ?_
    exact counted
  | turned => exact Entry.index_token rfl

/-- A list that is found under its name sits in a slot. -/
theorem mem_slots_of_find? {r : Registry} {listId : ListId} (found : r.find? listId = some l) :
    some l ∈ r.slots := by
  obtain ⟨handle, -, held⟩ := Registry.find?_eq_some_iff.1 found
  exact List.mem_of_getElem? (Option.join_eq_some_iff.1 held)

/-- All items are counted after a move that leaves as many as can be counted. -/
theorem Counts.step (h : Counts s) (countable : StaysCountable s m) : Counts (s.step m) where
  sound := (effects_step h.sound m).sound
  starts := h.starts.step h.sound m
  counted listId := h.effect ((effects_step h.sound m).effect listId) fun l found =>
    countable _ (mem_slots_of_find? found) l rfl

/-- A new session has no list whose items could be miscounted. -/
theorem counts_create {policy : Policy} (created : create policy = .ok s) : Counts s where
  sound := sound_create created
  starts := allStart_create created
  counted listId := by
    obtain ⟨policy', -, rfl⟩ := eq_of_create created
    exact Entry.index_none

end ListSync.Session
