import ListSync.Edit.Splice
import Mathlib.Data.List.Sort

/-!
# A difference leads from the items before to the items after

Who shows the earlier items and carries out the difference of a batch shows the later items
(`replay_applyEdits`). The slots of a batch remember where their items came from (`Remembers`).
Removals are carried out from the back, so each position is still the one it was before the batch;
what is left then are the earlier contents of the slots that remain. Insertions and then updates
walk through the slots from the front (`foldlM_walk`), so each position is the final one when it is
reached. To put items in front and behind is a run of insertions at either end (`replay_extend`).
-/

namespace ListSync

variable {α : Type}

/-- An insertion splits a list at its position. -/
theorem insertIdx_eq_append {xs : List α} {p : Nat} {x : α} (h : p ≤ xs.length) :
    xs.insertIdx p x = xs.take p ++ [x] ++ xs.drop p := by
  induction xs generalizing p with
  | nil =>
    obtain rfl : p = 0 := by simpa using h
    rfl
  | cons y xs ih =>
    cases p with
    | zero => rfl
    | succ p => simpa using ih (by simpa using h)

/-- What is left when items are cut out are some of the items, in order. -/
theorem sublist_cut (xs : List α) (p count : Nat) :
    (xs.take p ++ xs.drop (p + count)).Sublist xs := by
  have behind : (xs.drop (p + count)).Sublist (xs.drop p) := by
    rw [← List.drop_drop]
    exact List.drop_sublist ..
  have both := behind.append_left (xs.take p)
  rwa [List.take_append_drop] at both

/-! ## What slots remember -/

/-- To overwrite an item keeps where each item comes from. -/
theorem positions_modify (slots : List (Slot α)) (i : Nat) (x : α) :
    (slots.modify i (Slot.overwrite x)).filterMap (·.origin.position?)
      = slots.filterMap (·.origin.position?) := by
  have touch (o : Origin) : o.touch.position? = o.position? := by cases o <;> rfl
  induction slots generalizing i with
  | nil => simp
  | cons s slots ih =>
    cases i with
    | zero => simp [Slot.overwrite, touch, List.filterMap_cons]
    | succ i => simp [List.filterMap_cons, ih]

/-- The slots of items that were there before are in the order of these items, and hold them unless
they were set. -/
structure Remembers (items : List α) (slots : List (Slot α)) : Prop where
  ordered : (slots.filterMap (·.origin.position?)).Pairwise (· < ·)
  held : ∀ s ∈ slots, ∀ p touched, s.origin = .earlier p touched →
    p < items.length ∧ (touched = false → items[p]? = some s.item)

namespace Remembers

variable {items : List α} {slots : List (Slot α)}

/-- Before a batch each slot remembers its own item. -/
theorem ofItems (items : List α) : Remembers items (Slot.ofItems items) where
  ordered := by
    have positions : (Slot.ofItems items).filterMap (·.origin.position?)
        = List.range items.length := by
      rw [Slot.ofItems, List.filterMap_map]
      simp [Function.comp_def, Origin.position?, List.zipIdx_eq_zip_range',
        List.map_snd_zip, List.range_eq_range']
    rw [positions]
    exact List.pairwise_lt_range
  held s mem p touched origin := by
    obtain ⟨⟨item, q⟩, inside, rfl⟩ := List.mem_map.1 mem
    obtain ⟨rfl, rfl⟩ : q = p ∧ false = touched := by simpa using origin
    have at_ := List.mem_zipIdx_iff_getElem?.1 inside
    exact ⟨(List.getElem?_eq_some_iff.1 at_).1, fun _ => at_⟩

/-- Slots may go, and fresh ones may come anywhere. -/
theorem splice (h : Remembers items slots) {front fresh back : List (Slot α)}
    (kept : (front ++ back).Sublist slots) (new : ∀ s ∈ fresh, s.origin = .inserted) :
    Remembers items (front ++ fresh ++ back) where
  ordered := by
    have none : fresh.filterMap (·.origin.position?) = [] := by
      rw [List.filterMap_eq_nil_iff]
      intro s mem
      rw [new s mem, Origin.position?]
    rw [List.filterMap_append, List.filterMap_append, none, List.append_nil,
      ← List.filterMap_append]
    exact h.ordered.sublist (kept.filterMap _)
  held s mem p touched origin := by
    rcases List.mem_append.1 mem with mem | mem
    · rcases List.mem_append.1 mem with mem | mem
      · exact h.held s (kept.subset (List.mem_append_left _ mem)) p touched origin
      · rw [new s mem] at origin
        cases origin
    · exact h.held s (kept.subset (List.mem_append_right _ mem)) p touched origin

/-- The item of a slot may be overwritten. -/
theorem modify (h : Remembers items slots) (i : Nat) (x : α) :
    Remembers items (slots.modify i (Slot.overwrite x)) where
  ordered := by
    rw [positions_modify]
    exact h.ordered
  held s mem p touched origin := by
    obtain ⟨j, at_⟩ := List.mem_iff_getElem?.1 mem
    rw [List.getElem?_modify] at at_
    obtain ⟨old, oldAt, rfl⟩ := Option.map_eq_some_iff.1 at_
    have oldMem := List.mem_of_getElem? oldAt
    split at origin
    · -- a slot that was overwritten is touched, and so it need not hold the earlier item
      cases from_ : old.origin with
      | inserted => simp [Slot.overwrite, from_, Origin.touch] at origin
      | earlier q _ =>
        obtain ⟨rfl, rfl⟩ : q = p ∧ true = touched := by
          simpa [Slot.overwrite, from_, Origin.touch] using origin
        exact ⟨(h.held old oldMem q _ from_).1, by simp⟩
    · rename_i apart
      rw [if_neg apart]
      exact h.held old oldMem p touched origin

/-- After an edit slots remember their items as before it. -/
theorem onSlots (h : Remembers items slots) (e : Edit α) : Remembers items (e.onSlots slots) := by
  unfold Edit.onSlots
  -- what is left of the slots keeps its order, and what comes in has no earlier position
  cases e with
  | insert i x =>
    dsimp only
    cases place : insertPosition? i slots.length with
    | none => exact h
    | some p =>
      dsimp only
      have inside : p ≤ slots.length := by
        unfold insertPosition? at place
        split at place
        · cases place
          omega
        · cases place
      rw [insertIdx_eq_append inside]
      refine h.splice (by rw [List.take_append_drop]) ?_
      intro s mem
      rw [List.mem_singleton.1 mem, Slot.fresh]
  | insertMany i xs =>
    dsimp only
    cases insertPosition? i slots.length with
    | none => exact h
    | some p =>
      refine h.splice (by rw [List.take_append_drop]) ?_
      intro s mem
      obtain ⟨x, -, rfl⟩ := List.mem_map.1 mem
      rfl
  | delete i =>
    dsimp only
    cases itemPosition? i slots.length with
    | none => exact h
    | some p =>
      dsimp only
      rw [List.eraseIdx_eq_take_drop_succ, ← List.append_nil (slots.take p)]
      exact h.splice (sublist_cut slots p 1) (by simp)
  | deleteMany i count =>
    dsimp only
    cases itemPosition? i slots.length with
    | none => exact h
    | some p =>
      dsimp only
      rw [← List.append_nil (slots.take p)]
      exact h.splice (sublist_cut slots p count) (by simp)
  | set i x =>
    dsimp only
    cases itemPosition? i slots.length with
    | none => exact h
    | some p => exact h.modify p x

/-- The earlier positions that are left are those of the slots, in order. -/
theorem filter_range (h : Remembers items slots) :
    ((List.range items.length).filter ((slots.filterMap (·.origin.position?)).contains ·))
      = slots.filterMap (·.origin.position?) := by
  refine (List.pairwise_lt_range.filter _).eq_of_mem_iff h.ordered ?_
  intro p
  simp only [List.mem_filter, List.mem_range, List.contains_eq_mem, decide_eq_true_eq,
    and_iff_right_iff_imp, List.mem_filterMap]
  rintro ⟨s, mem, position⟩
  cases origin : s.origin with
  | inserted => simp [origin, Origin.position?] at position
  | earlier q touched =>
    obtain rfl : q = p := by simpa [origin, Origin.position?] using position
    exact (h.held s mem q touched origin).1

/-- After a batch slots remember the items that it was applied to. -/
theorem run (items : List α) (edits : List (Edit α)) :
    Remembers items (Progress.run items edits).slots := by
  have step (edits : List (Edit α × Nat)) (progress : Progress α)
      (h : Remembers items progress.slots) :
      Remembers items (edits.foldl Progress.step progress).slots := by
    induction edits generalizing progress with
    | nil => exact h
    | cons e edits ih => exact ih (progress.step e) (h.onSlots e.1)
  exact step edits.zipIdx ⟨Slot.ofItems items, []⟩ (ofItems items)

end Remembers

/-! ## Removals -/

/-- To carry out a removal takes the item at its position. -/
theorem replay?_remove (target front back : List α) (x : α) :
    Change.replay? target (front ++ x :: back) (.remove front.length) = some (front ++ back) := by
  simp [Change.replay?, Change.remove, List.eraseIdx_append_of_length_le]

/-- To carry out an insertion puts the item of the target at its position. -/
theorem replay?_insert {target front back : List α} {x : α}
    (h : target[front.length]? = some x) :
    Change.replay? target (front ++ back) (.insert front.length) = some (front ++ x :: back) := by
  simp [Change.replay?, Change.insert, h, insertIdx_eq_append]

/-- To carry out an update puts the item of the target in place of the one there. -/
theorem replay?_update {target front back : List α} {x y : α}
    (h : target[front.length]? = some x) :
    Change.replay? target (front ++ y :: back) (.update front.length)
      = some (front ++ x :: back) := by
  simp [Change.replay?, Change.update, h]

/-- Positions are removed from the last to the first, so those before are still in place. -/
theorem foldlM_removals (target items : List α) (keep : Nat → Bool) {n : Nat}
    (h : n ≤ items.length) (behind : List α) :
    (((List.range n).reverse.filter fun p => !keep p).map Change.remove).foldlM
        (Change.replay? target) (items.take n ++ behind)
      = some (((List.range n).filter keep).filterMap (items[·]?) ++ behind) := by
  induction n generalizing behind with
  | zero => rfl
  | succ n ih =>
    have inside : n < items.length := h
    have last : items.take (n + 1) ++ behind = items.take n ++ items[n] :: behind := by
      rw [List.take_succ_eq_append_getElem inside, List.append_assoc]
      rfl
    have length : (items.take n).length = n := List.length_take_of_le (Nat.le_of_lt inside)
    rw [last, List.range_succ, List.reverse_append, List.reverse_singleton,
      List.singleton_append, List.filter_append]
    cases kept : keep n with
    | true =>
      -- the position stays, and is behind all that may still be removed
      rw [List.filter_cons_of_neg (by simp [kept]), ih (Nat.le_of_lt inside),
        List.filter_cons_of_pos (by simpa using kept)]
      simp [List.filterMap_append, inside]
    | false =>
      have removed := replay?_remove target (items.take n) behind items[n]
      rw [length] at removed
      rw [List.filter_cons_of_pos (by simp [kept]), List.map_cons, List.foldlM_cons, removed,
        List.filter_cons_of_neg (by simp [kept])]
      simpa using ih (Nat.le_of_lt inside) behind

/-! ## Walking through the slots -/

/-- What is shown in the place of a slot, before and after changes at some slots from the front to
the back. At a slot with a change its content comes into place, at any other it is there already. -/
theorem foldlM_walk (changed : Slot α → Bool) (change : Nat → Change)
    (before : Slot α → Option α) (after : Slot α → α) {target : List α} {slots : List (Slot α)}
    (step : ∀ s ∈ slots, if changed s then
        ∀ front back, target[front.length]? = some s.item →
          Change.replay? target (front ++ ((before s).toList ++ back)) (change front.length)
            = some (front ++ after s :: back)
      else before s = some (after s))
    (front : List α) (place : ∀ i s, slots[i]? = some s →
      target[front.length + i]? = some s.item) :
    (((slots.zipIdx front.length).filter fun s => changed s.1).map fun s => change s.2).foldlM
        (Change.replay? target) (front ++ slots.filterMap before)
      = some (front ++ slots.map after) := by
  -- over the slots, from the front: `front` is what has been shown of the target so far
  induction slots generalizing front with
  | nil => simp
  | cons s slots ih =>
    have here := step s List.mem_cons_self
    have rest := ih (fun s' mem => step s' (List.mem_cons_of_mem _ mem)) (front ++ [after s]) <| by
      intro i s' at_
      have next := place (i + 1) s' (by simpa using at_)
      rwa [List.length_append, List.length_singleton, Nat.add_assoc, Nat.add_comm 1]
    rw [List.length_append, List.length_singleton, List.append_assoc, List.append_assoc,
      List.singleton_append, List.singleton_append] at rest
    have shown : front ++ (s :: slots).filterMap before
        = front ++ ((before s).toList ++ slots.filterMap before) := by
      cases old : before s <;> simp [old]
    rw [List.map_cons, List.zipIdx_cons, shown]
    cases touched : changed s with
    | true =>
      rw [touched, if_pos rfl] at here
      rw [List.filter_cons_of_pos (by simpa using touched), List.map_cons, List.foldlM_cons,
        here front _ (place 0 s rfl)]
      exact rest
    | false =>
      rw [touched, if_neg Bool.false_ne_true] at here
      rw [List.filter_cons_of_neg (by simp [touched]), here]
      exact rest

/-! ## Differences -/

namespace Slot

/-- What was in the place of a slot before the batch. -/
def earlier? (items : List α) (s : Slot α) : Option α := s.origin.position?.bind (items[·]?)

/-- What is shown for a slot once fresh items are in place. -/
def shown (items : List α) (s : Slot α) : α := (s.earlier? items).getD s.item

/-- Whether an item of before the batch was replaced in its place. -/
def updated (s : Slot α) : Bool :=
  match s.origin with
  | .earlier _ touched => touched
  | .inserted => false

end Slot

/-- The difference that slots show leads to their items. -/
theorem Remembers.replay_diff {items : List α} {slots : List (Slot α)}
    (h : Remembers items slots) :
    (Slot.diff items.length slots).replay? (slots.map (·.item)) items
      = some (slots.map (·.item)) := by
  have place (i : Nat) (s : Slot α) (at_ : slots[i]? = some s) :
      (slots.map (·.item))[([] : List α).length + i]? = some s.item := by
    simp [at_]
  have removed := foldlM_removals (slots.map (·.item)) items
    ((slots.filterMap (·.origin.position?)).contains ·) (Nat.le_refl _) []
  rw [List.take_length, List.append_nil, h.filter_range, List.filterMap_filterMap,
    List.append_nil] at removed
  have inserted := foldlM_walk (fun s => s.origin = .inserted) .insert (Slot.earlier? items)
    (Slot.shown items) ?_ [] place
  have updated := foldlM_walk (fun s => s.updated) .update
    (fun s => some (Slot.shown items s)) (·.item) ?_ [] place
  · rw [List.filterMap_eq_map'] at updated
    rw [List.nil_append, List.nil_append] at inserted updated
    rw [Slot.diff, Diff.replay?, List.foldlM_append, List.foldlM_append, removed,
      Option.bind_eq_bind, Option.bind_some]
    exact (congrArg (Option.bind · _) inserted).trans updated
  · intro s mem
    cases origin : s.origin with
    | inserted =>
      -- a fresh item is in place already
      rw [if_neg (by simp [Slot.updated, origin]), Slot.shown, Slot.earlier?, origin]
      rfl
    | earlier p touched =>
      cases touched with
      | true =>
        rw [if_pos (by simp [Slot.updated, origin])]
        intro front back at_
        exact replay?_update at_
      | false =>
        obtain ⟨-, same⟩ := h.held s mem p false origin
        rw [if_neg (by simp [Slot.updated, origin]), Slot.shown, Slot.earlier?, origin,
          Origin.position?, Option.bind_some, same rfl, Option.getD_some]
  · intro s mem
    cases origin : s.origin with
    | inserted =>
      rw [if_pos (by simp)]
      intro front back at_
      have none : s.earlier? items = none := by simp [Slot.earlier?, origin, Origin.position?]
      rw [Slot.shown, none]
      exact replay?_insert at_
    | earlier p touched =>
      obtain ⟨inside, -⟩ := h.held s mem p touched origin
      have old : s.earlier? items = some items[p] := by
        simp [Slot.earlier?, origin, Origin.position?, inside]
      rw [if_neg (by simp), Slot.shown, old, Option.getD_some]

/-- The difference of a batch leads from the items before to the items after. -/
theorem replay_applyEdits (items : List α) (edits : List (Edit α)) :
    (applyEdits items edits).2.diff.replay? (applyEdits items edits).1 items
      = some (applyEdits items edits).1 := (Remembers.run items edits).replay_diff

/-! ## Items in front and behind -/

/-- A run of insertions puts items in between. -/
theorem foldlM_insertions (target front put back : List α)
    (place : ∀ i x, put[i]? = some x → target[front.length + i]? = some x) :
    ((List.range' front.length put.length).map Change.insert).foldlM (Change.replay? target)
        (front ++ back) = some (front ++ put ++ back) := by
  induction put generalizing front with
  | nil => simp
  | cons x put ih =>
    have rest := ih (front ++ [x]) <| by
      intro i y at_
      have next := place (i + 1) y (by simpa using at_)
      rwa [List.length_append, List.length_singleton, Nat.add_assoc, Nat.add_comm 1]
    rw [List.length_append, List.length_singleton, List.append_assoc, List.singleton_append] at rest
    rw [List.length_cons, List.range'_succ, List.map_cons, List.foldlM_cons,
      replay?_insert (place 0 x rfl)]
    simpa using rest

/-- The difference of items put in front and behind leads from the items before to those after. -/
theorem replay_extend (items front back : List α) :
    (extend items front back).2.replay? (extend items front back).1 items
      = some (extend items front back).1 := by
  have first := foldlM_insertions (front ++ items ++ back) [] front items ?_
  have last := foldlM_insertions (front ++ items ++ back) (front ++ items) back [] ?_
  · rw [List.nil_append, List.nil_append, List.length_nil, ← List.range_eq_range'] at first
    rw [List.append_nil, List.append_nil, List.length_append] at last
    rw [extend, Diff.replay?, List.foldlM_append, first]
    exact last
  · intro i x at_
    rw [List.getElem?_append_right (Nat.le_add_right ..), Nat.add_sub_cancel_left]
    exact at_
  · intro i x at_
    have inside : i < front.length := (List.getElem?_eq_some_iff.1 at_).1
    rw [List.length_nil, Nat.zero_add, List.append_assoc, List.getElem?_append_left inside]
    exact at_

end ListSync
