import ListSync.Producer.Checked
import ListSync.Proofs.Producer.Delivery

/-!
# When a batch is published in plain arithmetic

What a function gives in checked arithmetic is what it gives without the checks
(`rebaseAll_of_checked`). It stops for one of two edits only (`Holding.Strays`): a deletion of no
items that is addressed far before the held range, which fits every list and so is never skipped,
and the insertion of an item into a range that ends at the last index. All else that a list accepts
is near enough to the range, as neither of them begins before zero (`rebaseOneChecked_eq`).

So a batch is published to all subscribers exactly when no edit strays from the range of one of
them (`publishing_completes`). Otherwise the change stops, and by then the list has changed.
-/

namespace ListSync.Producer

open Index (Overflow)

namespace Holding

variable {α : Type} {range : Holding} {e : Edit α}

/-! ## Edits that stray -/

/-- A held range begins at zero or behind it and ends at an index. -/
structure Ordered (range : Holding) : Prop where
  start : 0 ≤ range.start
  ordered : range.start ≤ range.stop
  stop : range.stop ≤ Index.greatest

instance (range : Holding) : Decidable range.Ordered :=
  decidable_of_iff (0 ≤ range.start ∧ range.start ≤ range.stop ∧ range.stop ≤ Index.greatest)
    ⟨fun h => ⟨h.1, h.2.1, h.2.2⟩, fun h => ⟨h.start, h.ordered, h.stop⟩⟩

/-- An edit fits some items, and its numbers fit 64 bits. -/
structure Fitting (e : Edit α) : Prop where
  fits : ∃ n, e.misfit? n = none
  inRange : e.InRange

/-- An edit leads out of the index range when a held range follows it. -/
def Strays (range : Holding) : Edit α → Prop
  | .insert i _ => range.start ≤ i ∧ i ≤ range.stop ∧ range.stop = Index.greatest
  | .deleteMany i count => count = 0 ∧ i - range.start < Index.least
  | .insertMany .. | .delete _ | .set .. => False

instance decStrays (range : Holding) : (e : Edit α) → Decidable (range.Strays e)
  | .insert .. => inferInstanceAs (Decidable (_ ∧ _))
  | .deleteMany .. => inferInstanceAs (Decidable (_ ∧ _))
  | .insertMany .. | .delete _ | .set .. => instDecidableFalse

/-- One of some edits leads out of the index range when a held range follows them in order. -/
def StraysIn (range : Holding) : List (Edit α) → Prop
  | [] => False
  | e :: edits => range.Strays e ∨ (range.rebaseOne e).1.StraysIn edits

instance decStraysIn : (range : Holding) → (edits : List (Edit α)) →
    Decidable (range.StraysIn edits)
  | _, [] => instDecidableFalse
  | range, e :: edits => @instDecidableOr _ _ _ (decStraysIn (range.rebaseOne e).1 edits)

/-! ## What is computed in checked arithmetic -/

/-- A deletion that a held range follows in checked arithmetic is followed as it is without the
checks. -/
theorem rebaseDelete_of_checked {i : Int} {count : Nat} {result : Holding × Option (Edit α)}
    (h : range.rebaseDeleteChecked i count = .ok result) :
    result = range.rebaseDelete i count := by
  unfold rebaseDeleteChecked at h
  dsimp only at h
  obtain ⟨-, h⟩ := Index.plain_bind_eq_ok_iff.1 h
  unfold rebaseDelete
  dsimp only
  split at h
  · rename_i reaches
    simp only [Index.plain_bind_eq_ok_iff] at h
    obtain ⟨-, -, -, -, ⟨⟩⟩ := h
    rw [if_pos reaches]
  · rename_i misses
    obtain ⟨-, ⟨⟩⟩ := Index.plain_bind_eq_ok_iff.1 h
    rw [if_neg misses]

/-- What comes of an edit in checked arithmetic comes of it without the checks, and the edit does
not stray. -/
theorem rebaseOne_of_checked {result : Holding × Option (Edit α)}
    (h : range.rebaseOneChecked e = .ok result) :
    result = range.rebaseOne e ∧ ¬range.Strays e := by
  unfold rebaseOneChecked at h
  -- the distance to the range is computed first, whatever the edit is
  obtain ⟨near, h⟩ := Index.plain_bind_eq_ok_iff.1 h
  cases e with
  | insert i x =>
    dsimp only at h
    have one : Index.ofCount 1 = 1 := rfl
    unfold rebaseOne rebaseInsert
    dsimp only
    rw [one]
    split at h
    · rename_i before
      cases h
      exact ⟨(if_pos before).symm, fun strays => absurd strays.1 (Int.not_le.2 before)⟩
    · rename_i reached
      split at h
      · rename_i within
        obtain ⟨room, ⟨⟩⟩ := Index.plain_bind_eq_ok_iff.1 h
        rw [if_neg reached, if_pos within, Index.add_eq_add room]
        exact ⟨rfl, fun strays => absurd room.2 (by rw [strays.2.2]; decide)⟩
      · rename_i behind
        cases h
        rw [if_neg reached, if_neg behind]
        exact ⟨rfl, fun strays => absurd strays.2.1 behind⟩
  | insertMany i put =>
    cases h
    exact ⟨rfl, id⟩
  | delete i =>
    dsimp only at h
    unfold rebaseOne
    dsimp only
    split at h
    · rename_i before
      cases h
      exact ⟨(if_pos before).symm, id⟩
    · rename_i reached
      split at h
      · rename_i within
        obtain ⟨-, ⟨⟩⟩ := Index.plain_bind_eq_ok_iff.1 h
        rw [if_neg reached, if_pos within]
        exact ⟨rfl, id⟩
      · rename_i behind
        cases h
        rw [if_neg reached, if_neg behind]
        exact ⟨rfl, id⟩
  | deleteMany i count =>
    exact ⟨rebaseDelete_of_checked h, fun strays => absurd near.1 (Int.not_le.2 strays.2)⟩
  | set i x =>
    cases h
    exact ⟨rfl, id⟩

/-- Edits that a held range follows in checked arithmetic do not stray. -/
theorem rebaseAll_of_checked {edits : List (Edit α)} {result : Holding × List (Edit α)}
    (h : range.rebaseAllChecked edits = .ok result) :
    result = range.rebaseAll edits ∧ ¬range.StraysIn edits := by
  induction edits generalizing range result with
  | nil =>
    cases h
    exact ⟨rfl, id⟩
  | cons e edits ih =>
    obtain ⟨one, first, h⟩ := bind_eq_ok_iff.1 h
    obtain ⟨rest, later, ⟨⟩⟩ := bind_eq_ok_iff.1 h
    obtain ⟨rfl, near⟩ := rebaseOne_of_checked first
    obtain ⟨rfl, calm⟩ := ih later
    exact ⟨rfl, fun strays => strays.elim near calm⟩

/-! ## What does not stray is computed -/

/-- A number is an index if it or its opposite is one that is not below zero. -/
theorem inRange_of_short {i : Int} (low : -Index.greatest ≤ i) (high : i ≤ Index.greatest) :
    Index.InRange i := by
  simp only [Index.InRange, Index.least, Index.greatest] at *
  omega

/-- What a deletion takes out before the range is no more than there is. -/
theorem before_bounds (ordered : range.Ordered) {i : Int} {count : Nat} (inRange : Index.InRange i)
    (low : 0 ≤ i ∨ count = 0) :
    0 ≤ min (Index.add i (Index.ofCount count)) range.start - min i range.start
      ∧ min (Index.add i (Index.ofCount count)) range.start - min i range.start ≤ range.start := by
  have start := ordered.start
  simp only [Index.add, Index.clamp, Index.ofCount, Index.InRange, Index.least,
    Index.greatest] at *
  omega

/-- An ordered range that is moved to zero or behind it stays ordered. -/
theorem Ordered.shift (ordered : range.Ordered) {d : Int} (low : 0 ≤ range.start + d) :
    (range.shift d).Ordered := by
  obtain ⟨start, inOrder, stop⟩ := ordered
  simp only [Holding.shift, Index.add, Index.clamp, Index.least, Index.greatest] at *
  constructor
  · dsimp only
    omega
  · dsimp only
    omega
  · dsimp only [Index.greatest]
    omega

/-- An ordered range can end anywhere between its begin and the last index. -/
theorem Ordered.withStop (ordered : range.Ordered) {stop : Int} (after : range.start ≤ stop)
    (inRange : stop ≤ Index.greatest) : Ordered { range with stop } :=
  ⟨ordered.start, after, inRange⟩

/-- A held range stays ordered as it follows an insertion. -/
theorem Ordered.rebaseInsert (ordered : range.Ordered) (i : Int) (count : Nat) (e : Edit α) :
    (range.rebaseInsert i count e).1.Ordered := by
  have start := ordered.start
  have inOrder := ordered.ordered
  have stop := ordered.stop
  have counted : 0 ≤ Index.ofCount count := by
    simp only [Index.ofCount, Index.greatest]
    omega
  unfold Holding.rebaseInsert
  split
  · exact ordered.shift (by omega)
  · split
    · refine ordered.withStop ?_ (Index.inRange_add _ _).2
      simp only [Index.add, Index.clamp, Index.least, Index.greatest] at *
      omega
    · exact ordered

/-- A held range stays ordered as it follows a deletion of items, or of none anywhere. -/
theorem Ordered.rebaseDelete (ordered : range.Ordered) {i : Int} {count : Nat}
    (inRange : Index.InRange i) (low : 0 ≤ i ∨ count = 0) :
    (range.rebaseDelete (α := α) i count).1.Ordered := by
  have stop := ordered.stop
  obtain ⟨-, before⟩ := before_bounds ordered inRange low
  unfold Holding.rebaseDelete
  dsimp only
  split
  · exact (ordered.withStop (by omega) (by omega)).shift (by dsimp only; omega)
  · exact ordered.shift (by omega)

/-- A range that follows an edit which fits stays one. -/
theorem Ordered.rebaseOne (ordered : range.Ordered) (fitting : Fitting e) :
    (range.rebaseOne e).1.Ordered := by
  obtain ⟨⟨n, fits⟩, inRange⟩ := fitting
  have index := inRange.index
  cases e with
  | insert i x => exact ordered.rebaseInsert i 1 _
  | insertMany i put => exact ordered.rebaseInsert i put.length _
  | delete i =>
    have place := Edit.delete_fits.1 fits
    have stop := ordered.stop
    unfold Holding.rebaseOne
    dsimp only
    split
    · exact ordered.shift (by omega)
    · split
      · exact ordered.withStop (by omega) (by omega)
      · exact ordered
  | deleteMany i count =>
    rcases Edit.deleteMany_fits.1 fits with none | ⟨low, -, -⟩
    · exact ordered.rebaseDelete index (.inr none)
    · exact ordered.rebaseDelete index (.inl low)
  | set i x =>
    unfold Holding.rebaseOne
    dsimp only
    split <;> exact ordered

/-- A deletion of items, or of none anywhere, stays within the indices for an ordered range. -/
theorem rebaseDeleteChecked_eq (ordered : range.Ordered) {i : Int} {count : Nat}
    (inRange : Index.InRange i) (low : 0 ≤ i ∨ count = 0) :
    range.rebaseDeleteChecked (α := α) i count = .ok (range.rebaseDelete i count) := by
  obtain ⟨start, inOrder, stop⟩ := ordered
  obtain ⟨positive, before⟩ := before_bounds ⟨start, inOrder, stop⟩ inRange low
  unfold rebaseDeleteChecked rebaseDelete
  dsimp only
  rw [Index.plain_bind (inRange_of_short (by omega) (by omega))]
  split
  · rw [Index.plain_bind (inRange_of_short (by omega) (by omega)),
      Index.plain_bind (inRange_of_short (by omega) (by omega)),
      Index.plain_bind (inRange_of_short (by omega) (by omega)),
      Index.plain_bind (inRange_of_short (by omega) (by omega))]
    rfl
  · rw [Index.plain_bind (inRange_of_short (by omega) (by omega))]
    rfl

/-- An edit that fits is near enough to the range, unless it deletes nothing. -/
theorem near_of_fitting (ordered : range.Ordered) (fitting : Fitting e)
    (near : ¬range.Strays e) : Index.InRange (e.index - range.start) := by
  obtain ⟨⟨n, fits⟩, inRange⟩ := fitting
  obtain ⟨start, inOrder, stop⟩ := ordered
  have index := inRange.index
  have below : e.index - range.start ≤ Index.greatest := by
    have := index.2
    omega
  -- no edit that changes anything begins before zero
  have above (low : 0 ≤ e.index) : Index.InRange (e.index - range.start) :=
    inRange_of_short (by omega) below
  cases e with
  | insert i x => exact above (Edit.insert_fits.1 fits).1
  | insertMany i put => exact above (Edit.insertMany_fits.1 fits).1
  | delete i => exact above (Edit.delete_fits.1 fits).1
  | set i x => exact above (Edit.set_fits.1 fits).1
  | deleteMany i count =>
    rcases Edit.deleteMany_fits.1 fits with none | ⟨low, -, -⟩
    · exact ⟨Int.not_lt.1 fun far => near ⟨none, far⟩, below⟩
    · exact above low

/-- An edit that fits and does not stray is followed in checked arithmetic. -/
theorem rebaseOneChecked_eq (ordered : range.Ordered) (fitting : Fitting e)
    (near : ¬range.Strays e) : range.rebaseOneChecked e = .ok (range.rebaseOne e) := by
  unfold rebaseOneChecked
  rw [Index.plain_bind (near_of_fitting ordered fitting near)]
  obtain ⟨⟨n, fits⟩, inRange⟩ := fitting
  have index := inRange.index
  obtain ⟨start, inOrder, stop⟩ := ordered
  cases e with
  | insert i x =>
    have one : Index.ofCount 1 = 1 := rfl
    unfold rebaseOne rebaseInsert
    dsimp only
    rw [one]
    split
    · rfl
    · rename_i reached
      split
      · rename_i within
        -- there is room behind the range, as the edit does not stray
        have room : Index.InRange (range.stop + 1) := by
          refine inRange_of_short (by omega) ?_
          have short : range.stop ≠ Index.greatest := fun last =>
            near ⟨Int.not_lt.1 reached, within, last⟩
          omega
        rw [Index.plain_bind room, Index.add_eq_add room]
        rfl
      · rfl
  | insertMany i put => rfl
  | delete i =>
    unfold rebaseOne
    dsimp only
    split
    · rfl
    · split
      · rw [Index.plain_bind (inRange_of_short (by omega) (by omega))]
        rfl
      · rfl
  | deleteMany i count =>
    rcases Edit.deleteMany_fits.1 fits with none | ⟨low, -, -⟩
    · exact rebaseDeleteChecked_eq ⟨start, inOrder, stop⟩ index (.inr none)
    · exact rebaseDeleteChecked_eq ⟨start, inOrder, stop⟩ index (.inl low)
  | set i x => rfl

/-- Fitting edits that do not stray are followed in checked arithmetic as without the checks. -/
theorem rebaseAllChecked_eq {edits : List (Edit α)} (ordered : range.Ordered)
    (fitting : ∀ e ∈ edits, Fitting e) (calm : ¬range.StraysIn edits) :
    range.rebaseAllChecked edits = .ok (range.rebaseAll edits) := by
  induction edits generalizing range with
  | nil => rfl
  | cons e edits ih =>
    obtain ⟨near, calm⟩ := not_or.1 calm
    have here := fitting e List.mem_cons_self
    have rest := ih (ordered.rebaseOne here)
      (fun e' among => fitting e' (List.mem_cons_of_mem e among)) calm
    rw [rebaseAllChecked, rebaseOneChecked_eq ordered here near]
    show ((range.rebaseOne e).1.rebaseAllChecked edits >>= _) = _
    rw [rest]
    rfl

/-! ## Batches -/

/-- A batch that is rebased in checked arithmetic is rebased as it is without the checks. -/
theorem rebase_of_checked {edits : List (Edit α)} {skipped : List Nat}
    {result : Holding × List (Edit α)} (h : range.rebaseChecked edits skipped = .ok result) :
    result = range.rebase edits skipped :=
  (rebaseAll_of_checked h).1

/-- A batch that a list has been changed by is rebased in checked arithmetic exactly when none of
the edits that fitted the list strays. -/
theorem rebaseChecked_iff {edits : List (Edit α)} (ordered : range.Ordered)
    (inRange : ∀ e ∈ edits, e.InRange) (xs : List α) :
    range.rebaseChecked edits ((Edit.warningsFrom xs 0 edits).map (·.place))
        = .ok (range.rebase edits ((Edit.warningsFrom xs 0 edits).map (·.place)))
      ↔ ¬range.StraysIn (Edit.survivors xs edits) := by
  rw [rebase_warnings, rebaseChecked, Edit.survivors_of_warnings]
  constructor
  · intro h
    exact (rebaseAll_of_checked h).2
  · refine rebaseAllChecked_eq ordered fun e left => ?_
    obtain ⟨given, fits⟩ := Edit.mem_survivors left
    exact ⟨fits, inRange e given⟩

end Holding

/-! ## Subscribers -/

namespace Hub

variable {h : Hub} {kind : Kind} {batch : Batch} {skipped : List Nat} {id : ConnectionId}
  {ids : List ConnectionId}

/-- A batch is rebased in checked arithmetic for the range that a connection holds, if any. -/
def Reached (h : Hub) (batch : Batch) (skipped : List Nat) (id : ConnectionId) : Prop :=
  ∀ range, h.holding? id batch.listId = some range →
    range.rebaseChecked batch.edits skipped = .ok (range.rebase batch.edits skipped)

/-- A batch that is rebased for what a connection holds is pushed in checked arithmetic. -/
theorem pushChecked_eq (reached : h.Reached batch skipped id) :
    h.pushChecked kind batch skipped id = .ok (h.push kind batch skipped id) := by
  unfold pushChecked push
  cases held : h.holding? id batch.listId with
  | none => rfl
  | some range =>
    dsimp only
    rw [reached range held]
    rfl

/-- A push in checked arithmetic does what it does without the checks, for a batch that was rebased.
-/
theorem push_of_checked {result : Hub × Bool}
    (done : h.pushChecked kind batch skipped id = .ok result) :
    result = h.push kind batch skipped id ∧ h.Reached batch skipped id := by
  unfold pushChecked at done
  unfold push Reached
  cases held : h.holding? id batch.listId with
  | none =>
    rw [held] at done
    cases done
    exact ⟨rfl, nofun⟩
  | some range =>
    rw [held] at done
    obtain ⟨rebased, given, ⟨⟩⟩ := bind_eq_ok_iff.1 done
    have same := Holding.rebase_of_checked given
    subst same
    refine ⟨rfl, ?_⟩
    rintro range' ⟨⟩
    exact given

/-- A batch that is pushed to a connection changes nothing for the others. -/
theorem reached_push {other : ConnectionId} (apart : other ≠ id) :
    (h.push kind batch skipped id).1.Reached batch skipped other
      ↔ h.Reached batch skipped other := by
  unfold Reached
  rw [← holding?_desk, desk_push, if_neg apart, holding?_desk]

/-- A batch that is rebased for all connections is pushed to each in checked arithmetic. -/
theorem pushAllChecked_eq (distinct : ids.Nodup)
    (reached : ∀ id ∈ ids, h.Reached batch skipped id) :
    h.pushAllChecked kind batch skipped ids = .ok (h.pushAll kind batch skipped ids) := by
  induction ids generalizing h with
  | nil => rfl
  | cons id ids ih =>
    obtain ⟨fresh, distinct⟩ := List.nodup_cons.1 distinct
    have rest := ih (h := (h.push kind batch skipped id).1) distinct fun other among =>
      (reached_push (ne_of_mem_of_not_mem among fresh)).2
        (reached other (List.mem_cons_of_mem _ among))
    rw [pushAllChecked, pushChecked_eq (reached id List.mem_cons_self)]
    show ((h.push kind batch skipped id).1.pushAllChecked kind batch skipped ids >>= _) = _
    rw [rest]
    rfl

/-- Pushes in checked arithmetic are those without the checks, and rebase the batch for each
connection. -/
theorem pushAll_of_checked (distinct : ids.Nodup) {result : Hub × Nat}
    (done : h.pushAllChecked kind batch skipped ids = .ok result) :
    result = h.pushAll kind batch skipped ids ∧ ∀ id ∈ ids, h.Reached batch skipped id := by
  induction ids generalizing h result with
  | nil =>
    cases done
    exact ⟨rfl, nofun⟩
  | cons id ids ih =>
    obtain ⟨fresh, distinct⟩ := List.nodup_cons.1 distinct
    obtain ⟨first, pushed, done⟩ := bind_eq_ok_iff.1 done
    obtain ⟨rest, later, ⟨⟩⟩ := bind_eq_ok_iff.1 done
    obtain ⟨rfl, own⟩ := push_of_checked pushed
    obtain ⟨rfl, others⟩ := ih distinct later
    refine ⟨rfl, fun other among => ?_⟩
    rcases List.mem_cons.1 among with rfl | among
    · exact own
    · exact (reached_push (ne_of_mem_of_not_mem among fresh)).1 (others other among)

/-- A batch is published in checked arithmetic exactly when it is rebased for every subscriber. -/
theorem publishChecked_eq_iff (sound : h.Sound) :
    h.publishChecked kind batch skipped = .ok (h.publish kind batch skipped)
      ↔ ∀ id ∈ h.subscribers batch.listId, h.Reached batch skipped id := by
  have distinct := sound.nodup_subscribers batch.listId
  constructor
  · intro done
    exact (pushAll_of_checked distinct done).2
  · exact pushAllChecked_eq distinct

/-- What is published in checked arithmetic is what is published without the checks. -/
theorem publish_of_checked (sound : h.Sound) {result : Hub × Nat}
    (done : h.publishChecked kind batch skipped = .ok result) :
    result = h.publish kind batch skipped :=
  (pushAll_of_checked (sound.nodup_subscribers _) done).1

end Hub

/-! ## Changes -/

namespace Service

variable {s : Service} {listId : ListId} {edits : List (Edit Item)}

/-- The ranges that subscribers hold of a list begin at zero or behind it and end at an index. -/
def HoldsOrdered (s : Service) (listId : ListId) : Prop :=
  ∀ id ∈ s.hub.subscribers listId, ∀ range ∈ s.hub.holding? id listId, range.Ordered

/-- One of some edits that fit a list strays from the range that a subscriber holds of it. -/
def Strays (s : Service) (listId : ListId) (edits : List (Edit Item)) : Prop :=
  ∃ list ∈ (s.catalog.find listId).toOption, ∃ id ∈ s.hub.subscribers listId,
    ∃ range ∈ s.hub.holding? id listId, range.StraysIn (Edit.survivors list.items edits)

instance (s : Service) (listId : ListId) : Decidable (s.HoldsOrdered listId) :=
  inferInstanceAs (Decidable (∀ id ∈ s.hub.subscribers listId,
    ∀ range ∈ s.hub.holding? id listId, range.Ordered))

instance (s : Service) (listId : ListId) (edits : List (Edit Item)) :
    Decidable (s.Strays listId edits) :=
  inferInstanceAs (Decidable (∃ list ∈ (s.catalog.find listId).toOption,
    ∃ id ∈ s.hub.subscribers listId, ∃ range ∈ s.hub.holding? id listId,
      range.StraysIn (Edit.survivors list.items edits)))

/-- What a change of a list does in checked arithmetic, and what is answered. -/
theorem changeChecked_eq_of_find {list : FullList} (found : s.catalog.find listId = .ok list)
    (some : edits ≠ []) {hub : Except Overflow (Hub × Nat)}
    (published : s.hub.publishChecked list.kind ⟨list.id, list.version + 1, edits⟩
      ((Edit.warningsFrom list.items 0 edits).map (·.place)) = hub) :
    s.changeChecked listId edits = match hub with
      | .error overflow => .error ⟨(s.change listId edits).1.catalog, overflow⟩
      | .ok (hub, notified) =>
        .ok ({ (s.change listId edits).1 with hub }, .ok ⟨listId, list.version + 1,
          Edit.warningsFrom list.items 0 edits, notified⟩) := by
  have given : edits.isEmpty = false := by simpa using some
  rw [change_of_find found some]
  unfold changeChecked
  rw [given, found]
  simp only [apply_of_find found, published, Bool.false_eq_true, if_false]
  cases hub with
  | error overflow => rfl
  | ok result => rfl

/-- A change of a list that is not there is refused in checked arithmetic too. -/
theorem changeChecked_of_missing (missing : ∀ list, s.catalog.find listId ≠ .ok list) :
    s.changeChecked listId edits = .ok (s.change listId edits) := by
  unfold changeChecked change
  split
  · rfl
  · cases found : s.catalog.find listId with
    | error why => rfl
    | ok list => exact absurd found (missing list)

/-- The edits of a change reach every subscriber exactly when none of them strays. -/
theorem reached_iff (reachable : s.Reachable) (held : s.HoldsOrdered listId)
    (inRange : ∀ e ∈ edits, e.InRange) {list : FullList}
    (found : s.catalog.find listId = .ok list) :
    (∀ id ∈ s.hub.subscribers list.id, s.hub.Reached ⟨list.id, list.version + 1, edits⟩
        ((Edit.warningsFrom list.items 0 edits).map (·.place)) id)
      ↔ ¬s.Strays listId edits := by
  have own : list.id = listId := reachable.sound.named listId list (Catalog.find_eq_ok_iff.1 found)
  unfold Hub.Reached Strays
  rw [found, own]
  constructor
  · rintro reached ⟨_, ⟨⟩, id, subscribed, range, tracked, strays⟩
    exact (Holding.rebaseChecked_iff (held id subscribed range tracked) inRange list.items).1
      (reached id subscribed range tracked) strays
  · intro calm id subscribed range tracked
    refine (Holding.rebaseChecked_iff (held id subscribed range tracked) inRange list.items).2 ?_
    exact fun strays => calm ⟨list, rfl, id, subscribed, range, tracked, strays⟩

/-- A change none of whose edits strays is made in checked arithmetic. -/
theorem changeChecked_of_calm (reachable : s.Reachable) (held : s.HoldsOrdered listId)
    (inRange : ∀ e ∈ edits, e.InRange) (calm : ¬s.Strays listId edits) :
    s.changeChecked listId edits = .ok (s.change listId edits) := by
  cases found : s.catalog.find listId with
  | error why => exact changeChecked_of_missing (by simp [found])
  | ok list =>
    by_cases none : edits = []
    · rw [none]
      rfl
    · have published : s.hub.publishChecked list.kind ⟨list.id, list.version + 1, edits⟩
          ((Edit.warningsFrom list.items 0 edits).map (·.place)) = .ok _ :=
        (Hub.publishChecked_eq_iff reachable.sound.hub).2
          ((reached_iff reachable held inRange found).2 calm)
      rw [changeChecked_eq_of_find found none published, change_eq_of_find found none]

/-- A change one of whose edits strays has changed the list when it stops. -/
theorem changeChecked_of_strays (reachable : s.Reachable) (held : s.HoldsOrdered listId)
    (inRange : ∀ e ∈ edits, e.InRange) (strays : s.Strays listId edits) :
    ∃ overflow,
      s.changeChecked listId edits = .error ⟨(s.change listId edits).1.catalog, overflow⟩ := by
  have ⟨list, given, _, _, range, _, leads⟩ := strays
  have found : s.catalog.find listId = .ok list := by
    cases found : s.catalog.find listId <;> rw [found] at given <;> cases given
    rfl
  have some : edits ≠ [] := by
    rintro rfl
    exact leads
  cases published : s.hub.publishChecked list.kind ⟨list.id, list.version + 1, edits⟩
      ((Edit.warningsFrom list.items 0 edits).map (·.place)) with
  | error overflow => exact ⟨overflow, changeChecked_eq_of_find found some published⟩
  | ok result =>
    have sound := reachable.sound.hub
    have done := Hub.publish_of_checked sound published
    rw [done] at published
    exact absurd strays ((reached_iff reachable held inRange found).1
      ((Hub.publishChecked_eq_iff sound).1 published))

/-- A batch is rebased for a range in checked arithmetic exactly when no edit strays from it. So a
change is made and published in checked arithmetic exactly when no edit strays from the range of a
subscriber; otherwise it stops when the list has changed. -/
theorem publishing_completes {edits : List (Edit Item)} (inRange : ∀ e ∈ edits, e.InRange) :
    (∀ (xs : List Item) (range : Holding), range.Ordered →
      (range.rebaseChecked edits ((applyEdits xs edits).2.warnings.map (·.place))
          = .ok (range.rebase edits ((applyEdits xs edits).2.warnings.map (·.place)))
        ↔ ¬range.StraysIn (Edit.survivors xs edits)))
    ∧ ∀ (s : Service) (listId : ListId), s.Reachable → s.HoldsOrdered listId →
      (s.changeChecked listId edits = .ok (s.change listId edits) ↔ ¬s.Strays listId edits)
      ∧ (s.Strays listId edits → ∃ overflow,
        s.changeChecked listId edits = .error ⟨(s.change listId edits).1.catalog, overflow⟩) := by
  refine ⟨fun xs range ordered => ?_, fun s listId reachable held => ⟨⟨?_, ?_⟩, ?_⟩⟩
  · rw [Edit.applyEdits_warnings]
    exact Holding.rebaseChecked_iff ordered inRange xs
  · intro done strays
    obtain ⟨overflow, stopped⟩ := changeChecked_of_strays reachable held inRange strays
    cases done.symm.trans stopped
  · exact changeChecked_of_calm reachable held inRange
  · exact changeChecked_of_strays reachable held inRange

/-- The second of two letters is held by a connection that has subscribed to them. -/
def secondHeld : Service :=
  ((Delivery.twoLists.step (.connect 0)).step
    (.message 0 (.load "l" { start := some 1, count := some 1 } none))).step
    (.message 0 (.subscribe "l" none))

/-- A service comes to hold the second letter for a connection. -/
theorem reachable_secondHeld : secondHeld.Reachable :=
  have opened : Catalog.ofSeeds [⟨"l", .index, 0, none, ["a", "b"].map .str⟩,
      ⟨"n", .token, 7, some 2, []⟩] 4 = .ok Delivery.twoLists.catalog := rfl
  (((Reachable.start none opened).step _).step _).step _

/-- A deletion of no items is made as far before the letters as it can be, and one comes in behind
them. -/
theorem publishing_completes_secondHeld :
    ∃ changed, secondHeld.changeChecked "l" [.deleteMany (Index.least + 1) 0, .insert 2 (.str "c")]
        = .ok changed
      ∧ changed.2 = .ok ⟨"l", 1, [], 1⟩
      ∧ changed.1.hub.holding? 0 "l" = some ⟨1, 3⟩ := by
  have inRange : ∀ e ∈ [.deleteMany (Index.least + 1) 0, .insert 2 (.str "c")],
      (e : Edit Item).InRange := by decide
  exact ⟨_, ((publishing_completes inRange).2 secondHeld "l" reachable_secondHeld
    (by decide)).1.2 (by decide), by decide, by decide⟩

/-- One index further before them the deletion stops the change, although no warning is given for
it and nothing is deleted: the list is at its next version, and nobody is told. -/
theorem publishing_stops_secondHeld :
    (∀ e ∈ [.deleteMany Index.least 0], (e : Edit Item).InRange)
    ∧ (applyEdits (["a", "b"].map Json.str) [.deleteMany Index.least 0]).2.warnings = []
    ∧ (⟨1, 2⟩ : Holding).rebaseChecked [(.deleteMany Index.least 0 : Edit Item)] []
      = .error ⟨Index.least - 1⟩
    ∧ ∃ aborted, secondHeld.changeChecked "l" [.deleteMany Index.least 0] = .error aborted
      ∧ (aborted.catalog.summary "l").toOption = some ⟨"l", .index, 1, 2⟩ := by
  refine ⟨by decide, by decide, by decide, _, rfl, by decide⟩

end Service

end ListSync.Producer
