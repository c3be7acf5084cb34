import ListSync.Proofs.Producer.Holding

/-!
# To rebase a batch commutes with looking at a part of the list

Of a batch, the edits that are skipped are those that address no position of the list as it is when
they are reached; a deletion that overruns the list is trimmed and still takes effect. The warnings
tell the two apart by what they say (`Warning.Skips`). When the skipped edits and no others are left
out, the rebased batch does to the held items what the batch does to the list (`rebase_commutes`):
to apply the batch and look at the range that is then held is to look at the range first and apply
the rebased batch, of which every edit fits.

One edit is followed by `rebaseOne_acting`. An overrunning deletion is one that takes out all that
follows (`rebaseDelete_overrun`), and a batch is its edits one after the other.
-/

namespace ListSync

variable {α : Type}

/-! ## Skipped edits -/

/-- Whether a warning says that an edit was skipped as a whole. -/
def Warning.Skips (w : Warning) : Prop :=
  ∃ index length, w.message = (Misfit.outOfBounds index length).message

/-- What is said of an edit that was trimmed is never said of one that was skipped. -/
theorem Misfit.message_overrun_ne (count available length : Nat) (i index : Int) :
    (overrun count available i).message ≠ (outOfBounds index length).message := by
  have text (s : String) : toString s = s := rfl
  intro same
  -- the first letters differ
  have first := congrArg (fun m : String => m.toList.head?) same
  simp [message, text] at first

theorem Warning.skips_ofMisfit {place : Nat} {e : Edit α} {misfit : Misfit} :
    (Warning.ofMisfit place e misfit).Skips ↔ ∃ i n, misfit = .outOfBounds i n := by
  cases misfit with
  | outOfBounds i n => exact ⟨fun _ => ⟨i, n, rfl⟩, fun _ => ⟨i, n, rfl⟩⟩
  | overrun count available i =>
    constructor
    · rintro ⟨index, length, same⟩
      exact (Misfit.message_overrun_ne _ _ _ _ _ same).elim
    · rintro ⟨index, length, ⟨⟩⟩

namespace Edit

/-- An edit takes effect, if only in part, unless it addresses no position. -/
def acts (e : Edit α) (length : Nat) : Bool :=
  match e.misfit? length with
  | some (.outOfBounds ..) => false
  | _ => true

/-- The edits of a batch that are not skipped. -/
def acting (xs : List α) : List (Edit α) → List (Edit α)
  | [] => []
  | e :: edits =>
    if e.acts xs.length then e :: acting (e.splice xs) edits else acting (e.splice xs) edits

/-- An edit does nothing exactly if it is out of bounds. -/
theorem acts_eq_false_iff {e : Edit α} {length : Nat} :
    e.acts length = false ↔ ∃ i n, e.misfit? length = some (.outOfBounds i n) := by
  unfold acts
  split
  · rename_i i n misfit
    exact ⟨fun _ => ⟨i, n, misfit⟩, fun _ => rfl⟩
  · rename_i other
    simp only [Bool.true_eq_false, false_iff]
    rintro ⟨i, n, misfit⟩
    exact other i n misfit

/-- The first edit of a batch is skipped exactly when a warning at its place says so. -/
theorem skips_here_iff (xs : List α) (place : Nat) (e : Edit α) (edits : List (Edit α)) :
    (∃ w ∈ warningsFrom xs place (e :: edits), w.place = place ∧ w.Skips)
      ↔ e.acts xs.length = false := by
  rw [acts_eq_false_iff]
  constructor
  · rintro ⟨w, mem, here, skips⟩
    rcases List.mem_append.1 mem with first | later
    · obtain ⟨misfit, found, rfl⟩ := Option.map_eq_some_iff.1 (Option.mem_toList.1 first)
      obtain ⟨i, n, rfl⟩ := Warning.skips_ofMisfit.1 skips
      exact ⟨i, n, found⟩
    · have := le_place_of_mem later
      omega
  · rintro ⟨i, n, misfit⟩
    refine ⟨Warning.ofMisfit place e (.outOfBounds i n), ?_, rfl,
      Warning.skips_ofMisfit.2 ⟨i, n, rfl⟩⟩
    simp [warningsFrom, misfit]

/-- To leave out exactly the edits that are skipped, by what the warnings say, leaves those that
act. -/
theorem acting_of_warnings (xs : List α) (place : Nat) (edits : List (Edit α)) {skipped : List Nat}
    (exactly : ∀ p, place ≤ p → (p ∈ skipped ↔
      ∃ w ∈ warningsFrom xs place edits, w.place = p ∧ w.Skips)) :
    ((edits.zipIdx place).filter fun e => !skipped.contains e.2).map (·.1) = acting xs edits := by
  induction edits generalizing xs place with
  | nil => rfl
  | cons e edits ih =>
    have here := (exactly place (Nat.le_refl _)).trans (skips_here_iff xs place e edits)
    -- the warning for the first edit, if there is one, has nothing to say of later places
    have rest := ih (e.splice xs) (place + 1) <| by
      intro p later
      rw [exactly p (by omega)]
      refine exists_congr fun w => and_congr_left fun ⟨at_, _⟩ => ?_
      rw [warningsFrom, List.mem_append]
      refine or_iff_right ?_
      intro first
      obtain ⟨misfit, -, rfl⟩ := Option.map_eq_some_iff.1 (Option.mem_toList.1 first)
      exact absurd at_ (by show ¬place = p; omega)
    rw [List.zipIdx_cons, List.filter_cons, acting]
    cases acts : e.acts xs.length with
    | true =>
      have kept : place ∉ skipped := by simp [here, acts]
      simpa [kept] using rest
    | false =>
      have left : place ∈ skipped := here.2 acts
      simpa [left] using rest

end Edit

namespace Producer

namespace Holding

variable {range : Holding} {xs mid : List α} {i : Int}

/-- The held items of a list. -/
def slice (range : Holding) (xs : List α) : List α :=
  (xs.take range.stop.toNat).drop range.start.toNat

/-- A range holds its slice of a list if it lies in the list. -/
theorem holds_slice_iff : range.Holds xs (range.slice xs) ↔
    0 ≤ range.start ∧ range.start ≤ range.stop ∧ range.stop ≤ xs.length := by
  rw [holds_iff]
  simp [slice]

/-- A deletion that overruns the list is followed like one of all items from there on. -/
theorem rebaseDelete_overrun (holds : range.Holds xs mid) {count : Nat} (low : 0 ≤ i)
    (inside : i < xs.length) (overruns : xs.length < i + count)
    (room : (xs.length : Int) ≤ Index.greatest) :
    range.rebaseDelete (α := α) i count = range.rebaseDelete i (xs.length - i.toNat) := by
  obtain ⟨start, ordered, stop, -⟩ := holds_iff.1 holds
  have whole : Index.add i (Index.ofCount (xs.length - i.toNat)) = xs.length := by
    rw [Index.ofCount_eq_self (by omega), Index.add_eq_add]
    · omega
    · exact inRange_of_room room (by omega) (by omega)
  have beyond : xs.length ≤ Index.add i (Index.ofCount count) := by
    simp only [Index.add, Index.clamp, Index.ofCount, Index.least, Index.greatest] at *
    omega
  unfold rebaseDelete
  rw [whole]
  dsimp only
  -- both runs reach over the end of the held range
  rw [Int.min_eq_right (show range.start ≤ Index.add i (Index.ofCount count) by omega),
    Int.min_eq_right (show range.stop ≤ Index.add i (Index.ofCount count) by omega),
    Int.min_eq_right (show range.start ≤ (xs.length : Int) by omega), Int.min_eq_right stop]

/-- What is held of a list follows every edit that is not skipped. -/
theorem rebaseOne_acting (holds : range.Holds xs mid) {e : Edit α} (acts : e.acts xs.length)
    (inRange : e.InRange) (room : (xs.length : Int) ≤ Index.greatest)
    (room' : ((e.splice xs).length : Int) ≤ Index.greatest) :
    ∃ mid', (range.rebaseOne e).1.Holds (e.splice xs) mid'
      ∧ Follows (range.rebaseOne e).2.toList mid mid' := by
  cases hm : e.misfit? xs.length with
  | none => exact rebaseOne_holds holds hm inRange room room'
  | some misfit =>
    cases misfit with
    | outOfBounds i n =>
      rw [Edit.acts_eq_false_iff.2 ⟨i, n, hm⟩] at acts
      cases acts
    | overrun count available i =>
      -- only a deletion can overrun the list, and it is rebased as one that ends with the list
      obtain ⟨rfl, low, inside, overruns⟩ := Edit.eq_deleteMany_of_overrun hm
      have rebased : range.rebaseOne (.deleteMany i count : Edit α)
          = range.rebaseDelete i (xs.length - i.toNat) :=
        rebaseDelete_overrun holds low inside overruns room
      have spliced : (Edit.deleteMany i count).splice xs
          = cut xs i.toNat (i.toNat + (xs.length - i.toNat)) := by
        rw [Edit.splice, if_pos ⟨low, inside⟩, spliceAt_nil, ← cut_min]
        congr 1
        omega
      rw [rebased, spliced]
      exact rebaseDelete_holds holds low (by omega) room

/-- What is held of a list follows a batch of which the skipped edits are left out. -/
theorem rebaseAll_acting (edits : List (Edit α)) (holds : range.Holds xs mid)
    (inRange : ∀ e ∈ edits, e.InRange) (room : Roomy xs edits) :
    ∃ mid', (range.rebaseAll (Edit.acting xs edits)).1.Holds (Edit.spliceAll edits xs) mid'
      ∧ Follows (range.rebaseAll (Edit.acting xs edits)).2 mid mid' := by
  induction edits generalizing range xs mid with
  | nil => exact ⟨mid, holds, Follows.nil mid⟩
  | cons e edits ih =>
    have rest : ∀ e' ∈ edits, e'.InRange := fun e' h => inRange e' (List.mem_cons_of_mem e h)
    have now := room.1
    have next := room.2.here
    rw [Edit.acting, Edit.spliceAll_cons]
    cases acts : e.acts xs.length with
    | true =>
      rw [if_pos rfl]
      obtain ⟨mid', held, follows⟩ := rebaseOne_acting holds acts (inRange e List.mem_cons_self)
        (by omega) (by omega)
      obtain ⟨last, held', follows'⟩ := ih held rest room.2
      exact ⟨last, held', follows.append follows'⟩
    | false =>
      rw [if_neg Bool.false_ne_true]
      obtain ⟨i, n, misfit⟩ := Edit.acts_eq_false_iff.1 acts
      have same := Edit.splice_of_outOfBounds misfit
      exact ih (same.symm ▸ holds) rest room.2

/-- A batch that is rebased to a range of a list, less the edits that are skipped, fits the items of
the range and leads to those of the range as it is then, which lies within the list. -/
theorem rebase_commutes {edits : List (Edit α)} {skipped : List Nat} (start : 0 ≤ range.start)
    (ordered : range.start ≤ range.stop) (stop : range.stop ≤ xs.length)
    (inRange : ∀ e ∈ edits, e.InRange) (room : Roomy xs edits)
    (exactly : ∀ place, place ∈ skipped ↔
      ∃ w ∈ (applyEdits xs edits).2.warnings, w.place = place ∧ w.Skips) :
    let next := (range.rebase edits skipped).1
    let after := applyEdits (range.slice xs) (range.rebase edits skipped).2
    0 ≤ next.start ∧ next.start ≤ next.stop ∧ next.stop ≤ (applyEdits xs edits).1.length
      ∧ after.1 = next.slice (applyEdits xs edits).1 ∧ after.2.warnings = [] := by
  have holds := holds_slice_iff.2 ⟨start, ordered, stop⟩
  obtain ⟨mid', held, follows⟩ := rebaseAll_acting edits holds inRange room
  have rebased : range.rebase edits skipped = range.rebaseAll (Edit.acting xs edits) := by
    rw [rebase, Edit.acting_of_warnings xs 0 edits]
    intro place _
    rw [exactly, Edit.applyEdits_warnings]
  obtain ⟨start', ordered', stop', rfl⟩ := holds_iff.1 held
  dsimp only
  rw [rebased, applyEdits_items, applyEdits_items, Edit.applyEdits_warnings,
    Edit.warnings_of_fitting follows.fits]
  exact ⟨start', ordered', stop', follows.items, rfl⟩

/-- Items come in at both edges of the range from the third to the fourth of six, one edit misses
the list, and deletions reach over each edge of the range, the last one beyond the list as well. -/
def acrossEdges : List (Edit Nat) :=
  [.insert 2 10, .set 9 11, .insertMany 5 [12, 13], .deleteMany 1 2, .deleteMany 3 100]

/-- The edit that misses the list is warned of, and so is the deletion that overruns it. -/
theorem warnings_acrossEdges : (applyEdits [0, 1, 2, 3, 4, 5] acrossEdges).2.warnings
    = [.ofMisfit 1 (.set 9 11) (.outOfBounds 9 7),
      .ofMisfit 4 (.deleteMany 3 100 : Edit Nat) (.overrun 100 4 3)] := by decide

/-- The trimmed deletion is rebased, and the one skipped edit is not. -/
theorem rebase_commutes_acrossEdges :
    (⟨2, 4⟩ : Holding).rebase acrossEdges [1] = (⟨1, 3⟩,
      [.insert 0 10, .insertMany 3 [12, 13], .deleteMany 0 1, .deleteMany 2 2])
    ∧ (applyEdits ((⟨2, 4⟩ : Holding).slice [0, 1, 2, 3, 4, 5])
        ((⟨2, 4⟩ : Holding).rebase acrossEdges [1]).2).1
      = (⟨1, 3⟩ : Holding).slice (applyEdits [0, 1, 2, 3, 4, 5] acrossEdges).1 := by
  refine ⟨by decide, (rebase_commutes (show 0 ≤ (⟨2, 4⟩ : Holding).start by decide) (by decide)
    (by decide) (by decide) (by decide) ?_).2.2.2.1⟩
  intro place
  have skips (p : Nat) (e : Edit Nat) (misfit : Misfit) :
      (Warning.ofMisfit p e misfit).place = p := rfl
  simp [warnings_acrossEdges, Warning.skips_ofMisfit, skips, eq_comm]

end Holding

end Producer

end ListSync
