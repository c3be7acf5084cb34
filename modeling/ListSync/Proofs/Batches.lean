import ListSync.Proofs.Edits
import Mathlib.Data.List.Induction

/-!
# A batch is its edits, one after the other

Applied as a whole, a batch does what its edits do in order, each as a splice of the items as they
are when it is reached (`applies_in_order`). It warns of exactly those that miss the items then,
`Edit.misses`, and of each of them once. So two batches in a row are one longer batch, of whose
warnings the later ones count on.
-/

namespace ListSync

variable {α : Type}

/-- A warning once its batch comes behind `k` other edits. -/
def Warning.behind (k : Nat) (w : Warning) : Warning := { w with place := w.place + k }

namespace Edit

/-- Whether an edit addresses no position of `n` items, or should take out more items than follow.
To take out none never misses. -/
def misses (e : Edit α) (n : Nat) : Bool :=
  match e with
  | insert i _ | insertMany i _ => i < 0 || n < i
  | delete i | set i _ => i < 0 || n ≤ i
  | deleteMany i count => count ≠ 0 && (i < 0 || n ≤ i || n < i + count)

/-- Whether the edit at a place of a batch misses the items as they are when it is reached. -/
def missesAt (items : List α) (edits : List (Edit α)) (place : Nat) : Bool :=
  edits[place]?.any fun e => e.misses (spliceAll (edits.take place) items).length

/-- An edit misses the items exactly when it does not fit them. -/
theorem isSome_misfit? (e : Edit α) (n : Nat) : (e.misfit? n).isSome = e.misses n := by
  rw [Bool.eq_iff_iff, Option.isSome_iff_ne_none, ne_eq]
  cases e with
  | insert i x =>
    rw [insert_fits, misses, Bool.or_eq_true, decide_eq_true_eq, decide_eq_true_eq]
    omega
  | insertMany i put =>
    rw [insertMany_fits, misses, Bool.or_eq_true, decide_eq_true_eq, decide_eq_true_eq]
    omega
  | delete i =>
    rw [delete_fits, misses, Bool.or_eq_true, decide_eq_true_eq, decide_eq_true_eq]
    omega
  | set i x =>
    rw [set_fits, misses, Bool.or_eq_true, decide_eq_true_eq, decide_eq_true_eq]
    omega
  | deleteMany i count =>
    rw [deleteMany_fits, misses]
    simp only [Bool.and_eq_true, Bool.or_eq_true, decide_eq_true_eq]
    omega

/-- A deletion takes out as many items as it says, or all that follow. -/
theorem splice_deleteMany {i : Int} {xs : List α} (count : Nat) (low : 0 ≤ i)
    (inside : i < xs.length) :
    (deleteMany i count).splice xs = spliceAt xs i.toNat (min count (xs.length - i.toNat)) [] := by
  have run : i.toNat + min count (xs.length - i.toNat) = min (i.toNat + count) xs.length := by omega
  rw [splice, if_pos ⟨low, inside⟩, spliceAt_nil, spliceAt_nil, run, cut_min]

/-! ## Warnings -/

/-- The warnings for two batches in a row. -/
theorem warningsFrom_append (xs : List α) (place : Nat) (edits later : List (Edit α)) :
    warningsFrom xs place (edits ++ later) = warningsFrom xs place edits
      ++ warningsFrom (spliceAll edits xs) (place + edits.length) later := by
  induction edits generalizing xs place with
  | nil => rfl
  | cons e edits ih =>
    have next : place + 1 + edits.length = place + (e :: edits).length := by
      rw [List.length_cons]
      omega
    rw [List.cons_append, warningsFrom, warningsFrom, ih, next, List.append_assoc, spliceAll_cons]

/-- Where a batch begins shows in the places of its warnings alone. -/
theorem warningsFrom_add (xs : List α) (place k : Nat) (edits : List (Edit α)) :
    warningsFrom xs (place + k) edits = (warningsFrom xs place edits).map (Warning.behind k) := by
  induction edits generalizing xs place with
  | nil => rfl
  | cons e edits ih =>
    have next : place + k + 1 = place + 1 + k := by omega
    rw [warningsFrom, warningsFrom, List.map_append, ← ih, next]
    cases e.misfit? xs.length with
    | none => rfl
    | some misfit => rfl

/-- A warning is about an edit that does not fit the items when it is reached, and says how. -/
theorem warning_tells {xs : List α} {place : Nat} {edits : List (Edit α)} {w : Warning}
    (h : w ∈ warningsFrom xs place edits) :
    ∃ k e misfit, edits[k]? = some e
      ∧ e.misfit? (spliceAll (edits.take k) xs).length = some misfit
      ∧ w = Warning.ofMisfit (place + k) e misfit := by
  induction edits generalizing xs place with
  | nil => cases h
  | cons e edits ih =>
    rcases List.mem_append.1 h with here | later
    · obtain ⟨misfit, unfit, rfl⟩ := Option.map_eq_some_iff.1 (Option.mem_toList.1 here)
      exact ⟨0, e, misfit, rfl, unfit, rfl⟩
    · obtain ⟨k, e', misfit, there, unfit, rfl⟩ := ih later
      refine ⟨k + 1, e', misfit, there, unfit, ?_⟩
      rw [Nat.add_right_comm, Nat.add_assoc]

/-- The places of the warnings are those of the edits that miss, in order. -/
theorem places_warningsFrom (items : List α) (edits : List (Edit α)) :
    (warningsFrom items 0 edits).map (·.place)
      = (List.range edits.length).filter (missesAt items edits) := by
  -- the last edit adds a place at the end, and has no part in whether the others miss
  induction edits using List.reverseRecOn with
  | nil => rfl
  | append_singleton edits e ih =>
    have earlier (place : Nat) (h : place ∈ List.range edits.length) :
        missesAt items (edits ++ [e]) place = missesAt items edits place := by
      have inside := List.mem_range.1 h
      rw [missesAt, missesAt, List.getElem?_append_left inside,
        List.take_append_of_le_length (Nat.le_of_lt inside)]
    have last : missesAt items (edits ++ [e]) edits.length
        = e.misses (spliceAll edits items).length := by
      simp [missesAt]
    rw [warningsFrom_append, List.map_append, ih, List.length_append, List.length_singleton,
      List.range_succ, List.filter_append, List.filter_congr earlier, List.filter_cons,
      List.filter_nil, last, ← isSome_misfit?, Nat.zero_add, warningsFrom, warningsFrom,
      List.append_nil]
    cases e.misfit? (spliceAll edits items).length with
    | none => rfl
    | some misfit => rfl

end Edit

/-! ## Batches -/

/-- A batch does to the items what its edits do as splices, one after the other. Its warnings are
about the edits that miss the items when they are reached, one for each and in order. To apply a
batch that goes on with other edits is to apply these to what comes of the first. -/
theorem applies_in_order (items : List α) (edits : List (Edit α)) :
    (applyEdits items edits).1 = Edit.spliceAll edits items
    ∧ (∀ (xs : List α) (i : Int) (count : Nat), 0 ≤ i → i < xs.length →
      (Edit.deleteMany i count).splice xs
        = spliceAt xs i.toNat (min count (xs.length - i.toNat)) [])
    ∧ (applyEdits items edits).2.warnings.map (·.place)
      = (List.range edits.length).filter (Edit.missesAt items edits)
    ∧ (∀ w ∈ (applyEdits items edits).2.warnings, ∃ e misfit, edits[w.place]? = some e
      ∧ e.misfit? (Edit.spliceAll (edits.take w.place) items).length = some misfit
      ∧ w = Warning.ofMisfit w.place e misfit)
    ∧ ∀ later, (applyEdits items (edits ++ later)).1
        = (applyEdits (applyEdits items edits).1 later).1
      ∧ (applyEdits items (edits ++ later)).2.warnings = (applyEdits items edits).2.warnings
        ++ (applyEdits (applyEdits items edits).1 later).2.warnings.map (.behind edits.length)
      ∧ (applyEdits items (edits ++ later)).2.delta = (applyEdits items edits).2.delta
        + (applyEdits (applyEdits items edits).1 later).2.delta := by
  refine ⟨applyEdits_items items edits, fun xs i count => Edit.splice_deleteMany count, ?_, ?_, ?_⟩
  · rw [Edit.applyEdits_warnings, Edit.places_warningsFrom]
  · intro w warned
    rw [Edit.applyEdits_warnings] at warned
    obtain ⟨k, e, misfit, there, unfit, rfl⟩ := Edit.warning_tells warned
    rw [Nat.zero_add]
    exact ⟨e, misfit, there, unfit, rfl⟩
  · intro later
    have joined : (applyEdits items (edits ++ later)).1
        = (applyEdits (applyEdits items edits).1 later).1 := by
      rw [applyEdits_items, applyEdits_items, applyEdits_items, Edit.spliceAll_append]
    refine ⟨joined, ?_, ?_⟩
    · rw [Edit.applyEdits_warnings, Edit.applyEdits_warnings, Edit.applyEdits_warnings,
        applyEdits_items, Edit.warningsFrom_append, Edit.warningsFrom_add]
    · rw [delta_applyEdits, delta_applyEdits, delta_applyEdits, joined]
      omega

/-- Of one item that is left, one edit misses it and another one runs over its end. -/
def missAndOverrun : List (Edit Nat) :=
  [.deleteMany 1 2, .set 1 7, .deleteMany 0 9, .deleteMany 5 0]

theorem applies_in_order_missAndOverrun :
    (applyEdits [1, 2, 3] missAndOverrun).1 = []
    ∧ (applyEdits [1, 2, 3] missAndOverrun).2.warnings.map (·.place) = [1, 2]
    ∧ (Edit.deleteMany 1 9).splice [1, 2, 3] = spliceAt [1, 2, 3] 1 2 []
    ∧ ∃ e misfit, missAndOverrun[2]? = some e
      ∧ e.misfit? (Edit.spliceAll (missAndOverrun.take 2) [1, 2, 3]).length = some misfit
      ∧ Warning.ofMisfit 2 (.deleteMany 0 9 : Edit Nat) (.overrun 9 1 0)
        = Warning.ofMisfit 2 e misfit := by
  obtain ⟨items, run, places, tells, -⟩ := applies_in_order [1, 2, 3] missAndOverrun
  have warned : Warning.ofMisfit 2 (.deleteMany 0 9 : Edit Nat) (.overrun 9 1 0)
      ∈ (applyEdits [1, 2, 3] missAndOverrun).2.warnings := by decide
  exact ⟨items.trans (by decide), places.trans (by decide),
    run [1, 2, 3] 1 9 (by decide) (by decide), tells _ warned⟩

end ListSync
