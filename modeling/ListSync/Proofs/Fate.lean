import ListSync.Proofs.Replay

/-!
# What becomes of each item in a batch

An item that is there before a batch moves as items come and go in front of it, until an edit takes
it out (`Edit.destination?`), and on its way it may be set (`Edit.wasSet`). The items that edits put
in move in the same way, and those that are left at the end are the `Edit.arrivals` of the batch.
All three are said without the slots in which a batch remembers where its items came from.

Main statement: `diff_tells`. The difference of a batch lists as removed the items that have no
destination, as inserted the arrivals, and as updated the destinations of the items that were set,
each of them once and in order, so an item that comes and goes within the batch is not listed at
all. Slots tell the same (`Traces`): one edit is traced by `traces_onSlots`, and tracings compose.
-/

namespace ListSync

variable {α : Type}

/-! ## Where items go -/

/-- Where an item is once `dropped` items from a position on gave way to `put` others. -/
def moved? (position dropped put p : Nat) : Option Nat :=
  if p < position then some p
  else if p < position + dropped then none
  else some (p - dropped + put)

namespace Edit

/-- Where each item of a list of `length` items is after an edit, if it is still there. -/
def follow? (e : Edit α) (length : Nat) : Nat → Option Nat :=
  match e with
  | insert i _ => if 0 ≤ i ∧ i ≤ length then moved? i.toNat 0 1 else some
  | insertMany i put => if 0 ≤ i ∧ i ≤ length then moved? i.toNat 0 put.length else some
  | delete i => if 0 ≤ i ∧ i < length then moved? i.toNat 1 0 else some
  | deleteMany i count => if 0 ≤ i ∧ i < length then moved? i.toNat count 0 else some
  | set .. => some

/-- Whether an edit sets the item at a position of a list of `length` items. -/
def sets (e : Edit α) (length : Nat) : Nat → Bool :=
  match e with
  | set i _ => if 0 ≤ i ∧ i < length then fun p => i.toNat = p else fun _ => false
  | _ => fun _ => false

/-- The positions at which an edit of a list of `length` items puts new ones. -/
def puts (e : Edit α) (length : Nat) : List Nat :=
  match e with
  | insert i _ => if 0 ≤ i ∧ i ≤ length then [i.toNat] else []
  | insertMany i put => if 0 ≤ i ∧ i ≤ length then List.range' i.toNat put.length else []
  | _ => []

/-- Where an item is after a batch, if it is still there. -/
def destination? (xs : List α) : List (Edit α) → Nat → Option Nat
  | [], p => some p
  | e :: edits, p => (e.follow? xs.length p).bind (destination? (e.splice xs) edits)

/-- Whether an edit of a batch sets an item, wherever that is when the edit is reached. -/
def wasSet (xs : List α) : List (Edit α) → Nat → Bool
  | [], _ => false
  | e :: edits, p => e.sets xs.length p || (e.follow? xs.length p).any (wasSet (e.splice xs) edits)

/-- Where the items are that a batch puts in and does not take out again. -/
def arrivals (xs : List α) : List (Edit α) → List Nat
  | [] => []
  | e :: edits =>
    (e.puts xs.length).filterMap (destination? (e.splice xs) edits) ++ arrivals (e.splice xs) edits

end Edit

/-! ## Slots tell where items went -/

/-- What is found where in a spliced list. -/
theorem getElem?_spliceAt {xs put : List α} {position dropped : Nat} (inside : position ≤ xs.length)
    {q : Nat} : (spliceAt xs position dropped put)[q]? =
      if q < position then xs[q]?
      else if q < position + put.length then put[q - position]?
      else xs[q - put.length + dropped]? := by
  have front : (xs.take position).length = position := List.length_take_of_le inside
  rw [spliceAt, List.append_assoc, List.getElem?_append, front]
  by_cases before : q < position
  · rw [if_pos before, if_pos before, List.getElem?_take_of_lt before]
  · rw [if_neg before, if_neg before, List.getElem?_append]
    by_cases within : q < position + put.length
    · rw [if_pos within, if_pos (by omega)]
    · rw [if_neg within, if_neg (by omega), List.getElem?_drop]
      congr 1
      omega

/-- Each slot that is followed to a position is found there, touched if it was set, and all other
positions hold fresh items. -/
structure Traces (slots later : List (Slot α)) (follow? : Nat → Option Nat) (set : Nat → Bool)
    (fresh : List Nat) : Prop where
  carried : ∀ p s q, slots[p]? = some s → follow? p = some q →
    ∃ s', later[q]? = some s' ∧ s'.origin = if set p then s.origin.touch else s.origin
  new : ∀ q ∈ fresh, ∃ s, later[q]? = some s ∧ s.origin = .inserted
  all : ∀ q s, later[q]? = some s → q ∈ fresh ∨ ∃ p s', slots[p]? = some s' ∧ follow? p = some q

/-- An origin that is touched twice is touched. -/
theorem Origin.touch_touch (o : Origin) : o.touch.touch = o.touch := by cases o <;> rfl

namespace Traces

/-- Slots that stay are found where they are. -/
theorem refl (slots : List (Slot α)) : Traces slots slots some (fun _ => false) [] where
  carried p s q here next := by
    cases next
    exact ⟨s, here, rfl⟩
  new q h := absurd h List.not_mem_nil
  all q s here := .inr ⟨q, s, here, rfl⟩

/-- Slots that are traced twice are traced from the first to the last. -/
theorem trans {slots later last : List (Slot α)} {follow? follow?' : Nat → Option Nat}
    {set set' : Nat → Bool} {fresh fresh' : List Nat} (h : Traces slots later follow? set fresh)
    (h' : Traces later last follow?' set' fresh') :
    Traces slots last (fun p => (follow? p).bind follow?')
      (fun p => set p || (follow? p).any set') (fresh.filterMap follow?' ++ fresh') where
  carried p s q here next := by
    obtain ⟨mid, first, second⟩ := Option.bind_eq_some_iff.1 next
    obtain ⟨s', there, origin⟩ := h.carried p s mid here first
    obtain ⟨s'', last, origin'⟩ := h'.carried mid s' q there second
    refine ⟨s'', last, ?_⟩
    -- a slot that is touched twice is touched
    rw [origin', origin, first, Option.any_some]
    cases set p <;> cases set' mid <;> simp [Origin.touch_touch]
  new q mem := by
    rcases List.mem_append.1 mem with carried | new
    · obtain ⟨mid, new, second⟩ := List.mem_filterMap.1 carried
      obtain ⟨s, there, origin⟩ := h.new mid new
      obtain ⟨s', last, origin'⟩ := h'.carried mid s q there second
      refine ⟨s', last, ?_⟩
      rw [origin', origin]
      split <;> rfl
    · exact h'.new q new
  all q s here := by
    rcases h'.all q s here with new | ⟨mid, s', there, second⟩
    · exact .inl (List.mem_append_right _ new)
    · rcases h.all mid s' there with new | ⟨p, s'', before, first⟩
      · exact .inl (List.mem_append_left _ (List.mem_filterMap.2 ⟨mid, new, second⟩))
      · exact .inr ⟨p, s'', before, Option.bind_eq_some_iff.2 ⟨mid, first, second⟩⟩

/-- Fresh slots that take the place of others push on those behind them. -/
theorem splice (slots : List (Slot α)) {position : Nat} (inside : position ≤ slots.length)
    (dropped : Nat) {put : List (Slot α)} (inserted : ∀ s ∈ put, s.origin = .inserted) :
    Traces slots (spliceAt slots position dropped put) (moved? position dropped put.length)
      (fun _ => false) (List.range' position put.length) where
  -- a slot stays before the position, is dropped behind it, or moves along with the end
  carried p s q here next := by
    refine ⟨s, ?_, rfl⟩
    rw [getElem?_spliceAt inside, ← here]
    unfold moved? at next
    by_cases before : p < position
    · rw [if_pos before] at next
      cases next
      rw [if_pos before]
    · rw [if_neg before] at next
      by_cases gone : p < position + dropped
      · rw [if_pos gone] at next
        cases next
      · rw [if_neg gone] at next
        cases next
        rw [if_neg (by omega), if_neg (by omega)]
        congr 1
        omega
  new q mem := by
    obtain ⟨first, last⟩ := List.mem_range'_1.1 mem
    have within : q - position < put.length := by omega
    refine ⟨put[q - position], ?_, inserted _ (List.getElem_mem within)⟩
    rw [getElem?_spliceAt inside, if_neg (by omega), if_pos last, List.getElem?_eq_getElem within]
  -- conversely, a slot found later came from before, was put in, or came from behind
  all q s here := by
    rw [getElem?_spliceAt inside] at here
    by_cases before : q < position
    · rw [if_pos before] at here
      exact .inr ⟨q, s, here, if_pos before⟩
    · rw [if_neg before] at here
      by_cases within : q < position + put.length
      · exact .inl (List.mem_range'_1.2 ⟨by omega, within⟩)
      · rw [if_neg within] at here
        refine .inr ⟨_, s, here, ?_⟩
        rw [moved?, if_neg (by omega), if_neg (by omega)]
        congr 1
        omega

/-- A slot that is overwritten stays where it is. -/
theorem modify (slots : List (Slot α)) (i : Nat) (x : α) :
    Traces slots (slots.modify i (Slot.overwrite x)) some (fun p => i = p) [] where
  carried p s q here next := by
    cases next
    rw [List.getElem?_modify, here]
    refine ⟨_, rfl, ?_⟩
    by_cases own : i = p <;> simp [own, Slot.overwrite]
  new q h := absurd h List.not_mem_nil
  all q s here := by
    rw [List.getElem?_modify] at here
    obtain ⟨s', before, -⟩ := Option.map_eq_some_iff.1 here
    exact .inr ⟨q, s', before, rfl⟩

/-- One edit is traced. -/
theorem onSlots (e : Edit α) (slots : List (Slot α)) :
    Traces slots (e.onSlots slots) (e.follow? slots.length) (e.sets slots.length)
      (e.puts slots.length) := by
  -- every edit but the last replaces some slots by fresh ones, or does nothing where it does not
  -- fit
  cases e with
  | insert i x =>
    by_cases inside : 0 ≤ i ∧ i ≤ slots.length
    · simp only [Edit.onSlots, insertPosition?, Edit.follow?, Edit.sets, Edit.puts, if_pos inside]
      rw [insertIdx_eq_append (by omega)]
      have fresh : ∀ s ∈ [Slot.fresh x], s.origin = .inserted := by simp [Slot.fresh]
      exact splice slots (by omega) 0 fresh
    · simp only [Edit.onSlots, insertPosition?, Edit.follow?, Edit.sets, Edit.puts, if_neg inside]
      exact refl slots
  | insertMany i xs =>
    by_cases inside : 0 ≤ i ∧ i ≤ slots.length
    · simp only [Edit.onSlots, insertPosition?, Edit.follow?, Edit.sets, Edit.puts, if_pos inside]
      rw [← xs.length_map Slot.fresh]
      exact splice slots (by omega) 0 (by simp [Slot.fresh])
    · simp only [Edit.onSlots, insertPosition?, Edit.follow?, Edit.sets, Edit.puts, if_neg inside]
      exact refl slots
  | delete i =>
    by_cases inside : 0 ≤ i ∧ i < slots.length
    · simp only [Edit.onSlots, itemPosition?, Edit.follow?, Edit.sets, Edit.puts, if_pos inside]
      rw [List.eraseIdx_eq_take_drop_succ, ← List.append_nil (slots.take i.toNat)]
      exact splice slots (by omega) 1 (by simp)
    · simp only [Edit.onSlots, itemPosition?, Edit.follow?, Edit.sets, Edit.puts, if_neg inside]
      exact refl slots
  | deleteMany i count =>
    by_cases inside : 0 ≤ i ∧ i < slots.length
    · simp only [Edit.onSlots, itemPosition?, Edit.follow?, Edit.sets, Edit.puts, if_pos inside]
      rw [← List.append_nil (slots.take i.toNat)]
      exact splice slots (by omega) count (by simp)
    · simp only [Edit.onSlots, itemPosition?, Edit.follow?, Edit.sets, Edit.puts, if_neg inside]
      exact refl slots
  | set i x =>
    by_cases inside : 0 ≤ i ∧ i < slots.length
    · simp only [Edit.onSlots, itemPosition?, Edit.follow?, Edit.sets, Edit.puts, if_pos inside]
      exact modify slots i.toNat x
    · simp only [Edit.onSlots, itemPosition?, Edit.follow?, Edit.sets, Edit.puts, if_neg inside]
      exact refl slots

/-- The slots of a batch on its way are traced. -/
theorem foldl_step (edits : List (Edit α × Nat)) (s : Progress α) :
    Traces s.slots (edits.foldl Progress.step s).slots
      (Edit.destination? (s.slots.map (·.item)) (edits.map (·.1)))
      (Edit.wasSet (s.slots.map (·.item)) (edits.map (·.1)))
      (Edit.arrivals (s.slots.map (·.item)) (edits.map (·.1))) := by
  induction edits generalizing s with
  | nil => exact refl s.slots
  | cons e edits ih =>
    have first := onSlots e.1 s.slots
    have rest := ih (s.step e)
    have items : (s.step e).slots.map (·.item) = e.1.splice (s.slots.map (·.item)) :=
      Edit.items_onSlots e.1 s.slots
    rw [items] at rest
    have both := first.trans rest
    rw [← List.length_map (·.item)] at both
    exact both

/-- The slots of a batch tell what became of each item. -/
theorem run (items : List α) (edits : List (Edit α)) :
    Traces (Slot.ofItems items) (Progress.run items edits).slots (Edit.destination? items edits)
      (Edit.wasSet items edits) (Edit.arrivals items edits) := by
  have traced := foldl_step edits.zipIdx ⟨Slot.ofItems items, []⟩
  rw [Edit.items_ofItems, List.zipIdx_map_fst] at traced
  exact traced

end Traces

/-! ## Differences, position by position -/

namespace Slot

/-- The positions of certain slots. -/
def positions (certain : Slot α → Bool) (slots : List (Slot α)) : List Nat :=
  (slots.zipIdx.filter fun s => certain s.1).map (·.2)

/-- The earlier positions, of so many, of which no slot is left, from the last to the first. -/
def lost (length : Nat) (slots : List (Slot α)) : List Nat :=
  (List.range length).reverse.filter fun p => !(slots.filterMap (·.origin.position?)).contains p

/-- Whether a slot was put in by the batch. -/
def isNew (s : Slot α) : Bool := s.origin = .inserted

/-- The difference of a batch lists what was lost, what is new, and what was updated. -/
theorem diff_eq (length : Nat) (slots : List (Slot α)) :
    Slot.diff length slots = .changes ((lost length slots).map .remove
      ++ (positions isNew slots).map .insert ++ (positions updated slots).map .update) := by
  simp only [Slot.diff, lost, positions, List.map_map]
  rfl

/-- The positions of certain slots are those at which there is such a slot. -/
theorem mem_positions {certain : Slot α → Bool} {slots : List (Slot α)} {q : Nat} :
    q ∈ positions certain slots ↔ ∃ s, slots[q]? = some s ∧ certain s := by
  simp only [positions, List.mem_map, List.mem_filter, Prod.exists, List.mem_zipIdx_iff_getElem?]
  constructor
  · rintro ⟨s, _, ⟨here, holds⟩, rfl⟩
    exact ⟨s, here, holds⟩
  · rintro ⟨s, here, holds⟩
    exact ⟨s, q, ⟨here, holds⟩, rfl⟩

/-- The positions of certain slots go up. -/
theorem positions_ascending (certain : Slot α → Bool) (slots : List (Slot α)) :
    (positions certain slots).Pairwise (· < ·) := by
  have all : (slots.zipIdx.map (·.2)).Pairwise (· < ·) := by
    rw [List.zipIdx_map_snd]
    exact List.pairwise_lt_range'
  exact all.sublist (List.filter_sublist.map _)

/-- There are as many positions of certain slots as there are such slots. -/
theorem length_positions (certain : Slot α → Bool) (slots : List (Slot α)) :
    (positions certain slots).length = slots.countP certain := by
  rw [positions, List.length_map, ← List.countP_eq_length_filter]
  conv_rhs => rw [← List.zipIdx_map_fst 0 slots, List.countP_map]
  rfl

/-- The positions that were lost go down. -/
theorem lost_descending (length : Nat) (slots : List (Slot α)) :
    (lost length slots).Pairwise (· > ·) :=
  (List.pairwise_reverse.2 List.pairwise_lt_range).filter _

/-- A position is lost if no slot comes from it. -/
theorem mem_lost {length : Nat} {slots : List (Slot α)} {p : Nat} :
    p ∈ lost length slots ↔ p < length ∧ ∀ s ∈ slots, s.origin.position? ≠ some p := by
  simp [lost]

end Slot

/-- What was lost and what is left make up what there was, and what is left and what is new make up
what there is. -/
theorem Remembers.balance {items : List α} {slots : List (Slot α)} (h : Remembers items slots) :
    ((Slot.positions Slot.isNew slots).length : Int) - (Slot.lost items.length slots).length
      = slots.length - items.length := by
  have before : (slots.filterMap (·.origin.position?)).length
      + (Slot.lost items.length slots).length = items.length := by
    conv_lhs => rw [← h.filter_range]
    rw [Slot.lost, List.filter_reverse, List.length_reverse, ← List.countP_eq_length_filter,
      ← List.countP_eq_length_filter]
    have parts := (List.range items.length).length_eq_countP_add_countP
      ((slots.filterMap (·.origin.position?)).contains ·)
    simpa only [List.length_range, Bool.not_eq_true, Bool.decide_eq_false] using parts.symm
  have after : (Slot.positions Slot.isNew slots).length
      + (slots.filterMap (·.origin.position?)).length = slots.length := by
    have old (s : Slot α) : s.origin.position?.isSome = !s.isNew := by
      cases origin : s.origin <;> simp [Slot.isNew, Origin.position?, origin]
    have parts := slots.length_eq_countP_add_countP Slot.isNew
    rw [Slot.length_positions, List.length_filterMap_eq_countP]
    simpa only [old, Bool.not_eq_true, Bool.decide_eq_false] using parts.symm
  omega

/-! ## What a difference tells -/

section

variable (xs : List α) (edits : List (Edit α))

/-- Before a batch each slot comes from its own position. -/
theorem getElem?_ofItems (p : Nat) :
    (Slot.ofItems xs)[p]? = xs[p]?.map fun x => ⟨x, .earlier p false⟩ := by
  simp [Slot.ofItems, Function.comp_def]

variable {xs edits}

/-- An item is remembered where it went. -/
theorem slot_of_destination {p q : Nat} (inside : p < xs.length)
    (went : Edit.destination? xs edits p = some q) :
    ∃ s, (Progress.run xs edits).slots[q]? = some s
      ∧ s.origin = .earlier p (Edit.wasSet xs edits p) := by
  have start : (Slot.ofItems xs)[p]? = some ⟨xs[p], .earlier p false⟩ := by
    rw [getElem?_ofItems, List.getElem?_eq_getElem inside, Option.map_some]
  obtain ⟨s, here, origin⟩ := (Traces.run xs edits).carried p _ q start went
  refine ⟨s, here, ?_⟩
  rw [origin]
  cases Edit.wasSet xs edits p <;> rfl

/-- Where an earlier item is remembered it went. -/
theorem destination_of_slot {p q : Nat} {s : Slot α} {touched : Bool}
    (here : (Progress.run xs edits).slots[q]? = some s) (origin : s.origin = .earlier p touched) :
    p < xs.length ∧ Edit.destination? xs edits p = some q ∧ Edit.wasSet xs edits p = touched := by
  rcases (Traces.run xs edits).all q s here with new | ⟨p', s', start, went⟩
  · obtain ⟨s', here', fresh⟩ := (Traces.run xs edits).new q new
    rw [here] at here'
    cases here'
    rw [origin] at fresh
    cases fresh
  · rw [getElem?_ofItems] at start
    obtain ⟨x, before, -⟩ := Option.map_eq_some_iff.1 start
    have inside : p' < xs.length := (List.getElem?_eq_some_iff.1 before).1
    obtain ⟨s'', here', origin'⟩ := slot_of_destination inside went
    rw [here] at here'
    cases here'
    rw [origin] at origin'
    cases origin'
    exact ⟨inside, went, rfl⟩

/-- The slots of the arrivals are those that were put in. -/
theorem mem_arrivals_iff {q : Nat} : q ∈ Edit.arrivals xs edits ↔
    ∃ s, (Progress.run xs edits).slots[q]? = some s ∧ s.origin = .inserted := by
  constructor
  · exact (Traces.run xs edits).new q
  · rintro ⟨s, here, origin⟩
    rcases (Traces.run xs edits).all q s here with new | ⟨p, s', start, went⟩
    · exact new
    · rw [getElem?_ofItems] at start
      obtain ⟨x, before, -⟩ := Option.map_eq_some_iff.1 start
      obtain ⟨s'', here', origin'⟩ :=
        slot_of_destination (List.getElem?_eq_some_iff.1 before).1 went
      rw [here] at here'
      cases here'
      rw [origin] at origin'
      cases origin'

end

/-- The changes of a batch by position, and what became of each item. -/
structure Tells (xs : List α) (edits : List (Edit α)) (removed inserted updated : List Nat) :
    Prop where
  removed_descending : removed.Pairwise (· > ·)
  inserted_ascending : inserted.Pairwise (· < ·)
  updated_ascending : updated.Pairwise (· < ·)
  disjoint : inserted.Disjoint updated
  mem_removed : ∀ p, p ∈ removed ↔ p < xs.length ∧ Edit.destination? xs edits p = none
  mem_inserted : ∀ q, q ∈ inserted ↔ q ∈ Edit.arrivals xs edits
  mem_updated : ∀ p q, p < xs.length → Edit.destination? xs edits p = some q →
    (q ∈ updated ↔ Edit.wasSet xs edits p)
  updated_earlier : ∀ q ∈ updated, ∃ p < xs.length, Edit.destination? xs edits p = some q
  /-- An item that is not set is the same where it went. -/
  kept : ∀ p q, p < xs.length → Edit.destination? xs edits p = some q →
    Edit.wasSet xs edits p = false → (applyEdits xs edits).1[q]? = xs[p]?

/-- What is lost, new and updated among the slots tells what became of each item. -/
theorem tells_slots (xs : List α) (edits : List (Edit α)) :
    Tells xs edits (Slot.lost xs.length (Progress.run xs edits).slots)
      (Slot.positions Slot.isNew (Progress.run xs edits).slots)
      (Slot.positions Slot.updated (Progress.run xs edits).slots) where
  removed_descending := Slot.lost_descending ..
  inserted_ascending := Slot.positions_ascending ..
  updated_ascending := Slot.positions_ascending ..
  disjoint := by
    intro q new set
    obtain ⟨s, here, isNew⟩ := Slot.mem_positions.1 new
    obtain ⟨s', here', updated⟩ := Slot.mem_positions.1 set
    rw [here] at here'
    cases here'
    have origin : s.origin = .inserted := by simpa [Slot.isNew] using isNew
    simp [Slot.updated, origin] at updated
  mem_removed p := by
    rw [Slot.mem_lost]
    refine and_congr_right fun inside => ?_
    constructor
    · intro lost
      cases went : Edit.destination? xs edits p with
      | none => rfl
      | some q =>
        obtain ⟨s, here, origin⟩ := slot_of_destination inside went
        exact absurd (by rw [origin]; rfl) (lost s (List.mem_of_getElem? here))
    · intro gone s mem position
      obtain ⟨q, here⟩ := List.mem_iff_getElem?.1 mem
      cases origin : s.origin with
      | inserted => simp [origin, Origin.position?] at position
      | earlier p' touched =>
        obtain rfl : p' = p := by simpa [origin, Origin.position?] using position
        rw [(destination_of_slot here origin).2.1] at gone
        cases gone
  mem_inserted q := by
    rw [Slot.mem_positions, mem_arrivals_iff]
    simp [Slot.isNew]
  mem_updated p q inside went := by
    obtain ⟨s, here, origin⟩ := slot_of_destination inside went
    rw [Slot.mem_positions, here]
    simp [Slot.updated, origin]
  updated_earlier q mem := by
    obtain ⟨s, here, updated⟩ := Slot.mem_positions.1 mem
    cases origin : s.origin with
    | inserted => simp [Slot.updated, origin] at updated
    | earlier p touched =>
      obtain ⟨inside, went, -⟩ := destination_of_slot here origin
      exact ⟨p, inside, went⟩
  kept p q inside went unset := by
    obtain ⟨s, here, origin⟩ := slot_of_destination inside went
    obtain ⟨-, same⟩ := (Remembers.run xs edits).held s (List.mem_of_getElem? here) p _ origin
    rw [same unset]
    simp [applyEdits, here]

/-- The difference of a batch leads from the items before to those after. It lists removals from the
back, then insertions and then updates from the front: the items that are gone, the arrivals, and
the items that were set, as many more insertions than removals as there are more items. -/
theorem diff_tells (xs : List α) (edits : List (Edit α)) :
    ∃ removed inserted updated, Tells xs edits removed inserted updated
      ∧ (applyEdits xs edits).2.diff = .changes
        (removed.map .remove ++ inserted.map .insert ++ updated.map .update)
      ∧ (applyEdits xs edits).2.diff.replay? (applyEdits xs edits).1 xs
        = some (applyEdits xs edits).1
      ∧ (inserted.length : Int) - removed.length = (applyEdits xs edits).2.delta
      ∧ (applyEdits xs edits).2.delta = (applyEdits xs edits).1.length - xs.length := by
  have delta : (applyEdits xs edits).2.delta = (applyEdits xs edits).1.length - xs.length := by
    simp [applyEdits]
  refine ⟨_, _, _, tells_slots xs edits, Slot.diff_eq .., replay_applyEdits xs edits, ?_, delta⟩
  rw [(Remembers.run xs edits).balance, delta]
  simp [applyEdits]

end ListSync
