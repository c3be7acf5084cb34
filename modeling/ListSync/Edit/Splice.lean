import ListSync.Edit.Apply

/-!
# Edits as splices

What an edit does to a list, said without slots: what lies before the addressed position stays, what
comes in is put there, what goes out is dropped, and the rest follows. An edit that addresses no
position of the list leaves it as it is.

Main statement: `applyEdits_items`, which says that a batch yields the items that its edits yield as
splices, one after the other. The memory that slots carry is for the difference only.
-/

namespace ListSync

variable {α : Type}

/-- Drop `dropped` items at a position and put others there. -/
def spliceAt (xs : List α) (position dropped : Nat) (put : List α) : List α :=
  xs.take position ++ put ++ xs.drop (position + dropped)

namespace Edit

/-- What an edit does to a list. -/
def splice (e : Edit α) (xs : List α) : List α :=
  match e with
  | insert i x => if 0 ≤ i ∧ i ≤ xs.length then spliceAt xs i.toNat 0 [x] else xs
  | insertMany i put => if 0 ≤ i ∧ i ≤ xs.length then spliceAt xs i.toNat 0 put else xs
  | delete i => if 0 ≤ i ∧ i < xs.length then spliceAt xs i.toNat 1 [] else xs
  | deleteMany i count => if 0 ≤ i ∧ i < xs.length then spliceAt xs i.toNat count [] else xs
  | set i x => if 0 ≤ i ∧ i < xs.length then spliceAt xs i.toNat 1 [x] else xs

/-- What edits do to a list, one after the other. -/
def spliceAll (edits : List (Edit α)) (xs : List α) : List α :=
  edits.foldl (fun xs e => e.splice xs) xs

@[simp]
theorem spliceAll_nil (xs : List α) : spliceAll [] xs = xs := rfl

@[simp]
theorem spliceAll_cons (e : Edit α) (edits : List (Edit α)) (xs : List α) :
    spliceAll (e :: edits) xs = spliceAll edits (e.splice xs) := rfl

theorem spliceAll_append (front back : List (Edit α)) (xs : List α) :
    spliceAll (front ++ back) xs = spliceAll back (spliceAll front xs) := List.foldl_append

/-! ## What slots hold -/

/-- An insertion into slots, seen at the items. -/
theorem items_insertIdx (slots : List (Slot α)) (p : Nat) (x : α) (h : p ≤ slots.length) :
    (slots.insertIdx p (Slot.fresh x)).map (·.item) = spliceAt (slots.map (·.item)) p 0 [x] := by
  induction slots generalizing p with
  | nil =>
    obtain rfl : p = 0 := by simpa using h
    rfl
  | cons s slots ih =>
    cases p with
    | zero => rfl
    | succ p => simpa [spliceAt] using ih p (by simpa using h)

/-- An overwritten slot, seen at the items. -/
theorem items_modify (slots : List (Slot α)) (p : Nat) (x : α) (h : p < slots.length) :
    (slots.modify p (Slot.overwrite x)).map (·.item)
      = spliceAt (slots.map (·.item)) p 1 [x] := by
  induction slots generalizing p with
  | nil => simp at h
  | cons s slots ih =>
    cases p with
    | zero => simp [spliceAt, Slot.overwrite]
    | succ p => simpa [spliceAt, Nat.add_right_comm] using ih p (by simpa using h)

/-- What an edit does to slots, seen at the items, is a splice. -/
theorem items_onSlots (e : Edit α) (slots : List (Slot α)) :
    (e.onSlots slots).map (·.item) = e.splice (slots.map (·.item)) := by
  have inside (i : Int) (n : Nat) (h : 0 ≤ i ∧ i < n) : i.toNat < n := by omega
  -- both sides look at the same position, and leave everything alone where that is none
  cases e with
  | insert i x =>
    by_cases h : 0 ≤ i ∧ i ≤ slots.length
    · simp [onSlots, splice, insertPosition?, h, items_insertIdx slots i.toNat x (by omega)]
    · simp [onSlots, splice, insertPosition?, h]
  | insertMany i put =>
    by_cases h : 0 ≤ i ∧ i ≤ slots.length
    · simp [onSlots, splice, insertPosition?, h, spliceAt, Slot.fresh, Function.comp_def]
    · simp [onSlots, splice, insertPosition?, h]
  | delete i =>
    by_cases h : 0 ≤ i ∧ i < slots.length
    · simp [onSlots, splice, itemPosition?, h, spliceAt, List.eraseIdx_eq_take_drop_succ]
    · simp [onSlots, splice, itemPosition?, h]
  | deleteMany i count =>
    by_cases h : 0 ≤ i ∧ i < slots.length
    · simp [onSlots, splice, itemPosition?, h, spliceAt]
    · simp [onSlots, splice, itemPosition?, h]
  | set i x =>
    by_cases h : 0 ≤ i ∧ i < slots.length
    · simp [onSlots, splice, itemPosition?, h, items_modify slots i.toNat x (inside i _ h)]
    · simp [onSlots, splice, itemPosition?, h]

/-- The slots of some items hold these items. -/
theorem items_ofItems (items : List α) : (Slot.ofItems items).map (·.item) = items := by
  simp [Slot.ofItems, Function.comp_def]

end Edit

/-! ## Batches -/

/-- The items of a batch on its way are those that its edits yield as splices. -/
theorem items_foldl_step (edits : List (Edit α × Nat)) (s : Progress α) :
    (edits.foldl Progress.step s).slots.map (·.item)
      = Edit.spliceAll (edits.map (·.1)) (s.slots.map (·.item)) := by
  induction edits generalizing s with
  | nil => rfl
  | cons e edits ih => simp [ih, Progress.step, Edit.items_onSlots]

/-- A batch yields the items that its edits yield as splices, one after the other. -/
theorem applyEdits_items (items : List α) (edits : List (Edit α)) :
    (applyEdits items edits).1 = Edit.spliceAll edits items := by
  simp [applyEdits, Progress.run, items_foldl_step, Edit.items_ofItems]

/-- By how much a batch changes the number of items. -/
theorem delta_applyEdits (items : List α) (edits : List (Edit α)) :
    (applyEdits items edits).2.delta = (applyEdits items edits).1.length - items.length := by
  simp [applyEdits]

end ListSync
