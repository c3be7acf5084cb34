import ListSync.Producer.Holding
import ListSync.Proofs.Edits
import ListSync.Proofs.RoundTrip

/-!
# A rebased batch does to the held items what the batch does to the list

`Holding.Holds` says which items of a list a range holds, and `Follows` that edits fit some items
and turn them into others. An edit that fits the list is rebased into an edit that the held items
follow (`rebaseOne_holds`). A deletion that overruns the list is not rebased at all; that goes well
exactly as long as it begins at the end of the held range or behind it (`spares`). Where it does
not, the range reaches beyond the end of the list from then on (`Lost`).
-/

namespace ListSync.Producer

variable {α : Type}

/-! ## Edits that are followed -/

/-- A position of a list in memory is an index. -/
theorem inRange_of_room {j : Int} {n : Nat} (room : (n : Int) ≤ Index.greatest) (low : 0 ≤ j)
    (high : j ≤ n) : Index.InRange j := by
  simp only [Index.InRange, Index.least, Index.greatest] at *
  omega

/-- An edit that fits items with positive indices is itself in range, unless it deletes none of
them, which it can do anywhere. -/
theorem inRange_of_fits {e : Edit α} {n : Nat} (fits : e.misfit? n = none)
    (room : (n : Int) ≤ Index.greatest) (some : ∀ i, e ≠ .deleteMany i 0) : e.InRange := by
  cases e with
  | insert i x =>
    obtain ⟨low, high⟩ := Edit.insert_fits.1 fits
    exact ⟨inRange_of_room room low high, by rintro j m ⟨⟩⟩
  | insertMany i put =>
    obtain ⟨low, high⟩ := Edit.insertMany_fits.1 fits
    exact ⟨inRange_of_room room low high, by rintro j m ⟨⟩⟩
  | delete i =>
    obtain ⟨low, high⟩ := Edit.delete_fits.1 fits
    exact ⟨inRange_of_room room low (Int.le_of_lt high), by rintro j m ⟨⟩⟩
  | set i x =>
    obtain ⟨low, high⟩ := Edit.set_fits.1 fits
    exact ⟨inRange_of_room room low (Int.le_of_lt high), by rintro j m ⟨⟩⟩
  | deleteMany i count =>
    rcases Edit.deleteMany_fits.1 fits with rfl | ⟨low, inside, high⟩
    · exact absurd rfl (some i)
    · refine ⟨inRange_of_room room low (Int.le_of_lt inside), ?_⟩
      rintro j m ⟨⟩
      simp only [maxCount, Index.greatest] at *
      omega

/-- Edits fit some items one after the other, and turn them into others. -/
structure Follows (edits : List (Edit α)) (mid mid' : List α) : Prop where
  fits : Edit.AllFit mid edits
  items : Edit.spliceAll edits mid = mid'
  inRange : ∀ e ∈ edits, e.InRange

/-- No edits leave items as they are. -/
theorem Follows.nil (mid : List α) : Follows [] mid mid where
  fits := trivial
  items := rfl
  inRange _ h := absurd h List.not_mem_nil

/-- One edit that fits some items in memory turns them into what it makes of them. -/
theorem Follows.one {e : Edit α} {mid mid' : List α} (fits : e.misfit? mid.length = none)
    (items : e.splice mid = mid') (room : (mid.length : Int) ≤ Index.greatest)
    (some : ∀ i, e ≠ .deleteMany i 0) : Follows [e] mid mid' where
  fits := ⟨fits, trivial⟩
  items := items
  inRange e' h := by
    rw [List.mem_singleton.1 h]
    exact inRange_of_fits fits room some

/-- Edits that fit what other edits have left fit behind these. -/
theorem Follows.append {edits edits' : List (Edit α)} {mid mid' last : List α}
    (h : Follows edits mid mid') (h' : Follows edits' mid' last) :
    Follows (edits ++ edits') mid last := by
  obtain ⟨fits, items, inRange⟩ := h
  refine ⟨?_, by rw [Edit.spliceAll_append, items, h'.items], ?_⟩
  · clear inRange
    -- by induction on the first edits, with the items that are left at the end kept fixed
    induction edits generalizing mid with
    | nil =>
      cases items
      exact h'.fits
    | cons e edits ih => exact ⟨fits.1, ih fits.2 items⟩
  · intro e he
    exact (List.mem_append.1 he).elim (inRange e) (h'.inRange e)

namespace Holding

/-! ## Held items -/

/-- The items of a list that lie in a range. -/
def Holds (range : Holding) (xs mid : List α) : Prop :=
  ∃ pre post, xs = pre ++ mid ++ post ∧ range.start = pre.length
    ∧ range.stop = pre.length + mid.length

/-- A range holds the items between its ends, if both ends lie in the list. -/
theorem holds_iff {range : Holding} {xs mid : List α} :
    range.Holds xs mid ↔ 0 ≤ range.start ∧ range.start ≤ range.stop ∧ range.stop ≤ xs.length
      ∧ mid = (xs.take range.stop.toNat).drop range.start.toNat := by
  constructor
  · rintro ⟨pre, post, rfl, start, stop⟩
    simp only [List.length_append]
    refine ⟨by omega, by omega, by omega, ?_⟩
    have front : range.start.toNat = pre.length := by omega
    have both : range.stop.toNat = (pre ++ mid).length := by
      rw [List.length_append]
      omega
    rw [front, both, List.take_left, List.drop_left]
  · rintro ⟨start, ordered, stop, rfl⟩
    refine ⟨xs.take range.start.toNat, xs.drop range.stop.toNat, ?_, ?_, ?_⟩
    · have front : xs.take range.start.toNat
          = (xs.take range.stop.toNat).take range.start.toNat := by
        rw [List.take_take, Nat.min_eq_left (by omega)]
      rw [front, List.take_append_drop, List.take_append_drop]
    · rw [List.length_take]
      omega
    · rw [List.length_take, List.length_drop, List.length_take]
      omega

/-- A range that holds items is as long as there are items, and lies in the list. -/
theorem Holds.length {range : Holding} {xs mid : List α}
    (holds : range.Holds xs mid) :
    (mid.length : Int) = range.stop - range.start ∧ range.stop ≤ xs.length ∧ 0 ≤ range.start := by
  obtain ⟨pre, post, rfl, front, back⟩ := holds
  simp only [List.length_append]
  omega

/-- A range that is moved within the indices keeps its length. -/
theorem shift_eq {range : Holding} {d : Int} (start : Index.InRange (range.start + d))
    (stop : Index.InRange (range.stop + d)) :
    range.shift d = ⟨range.start + d, range.stop + d⟩ := by
  rw [shift, Index.add_eq_add start, Index.add_eq_add stop]

/-! ## Edits that fit -/

variable {range : Holding} {xs mid : List α} {i : Int}

/-- The held items follow an insertion into the list. -/
theorem rebaseInsert_holds (holds : range.Holds xs mid) (low : 0 ≤ i) (high : i ≤ xs.length)
    (put : List α) (room : ((xs.length + put.length : Nat) : Int) ≤ Index.greatest) {e : Edit α}
    (inside : range.start ≤ i → i ≤ range.stop →
      Follows [e] mid (spliceAt mid (i - range.start).toNat 0 put)) :
    ∃ mid', (range.rebaseInsert i put.length e).1.Holds (spliceAt xs i.toNat 0 put) mid'
      ∧ Follows (range.rebaseInsert i put.length e).2.toList mid mid' := by
  obtain ⟨pre, post, rfl, start, stop⟩ := holds
  simp only [List.length_append] at high room
  have count : Index.ofCount put.length = put.length := Index.ofCount_eq_self (by omega)
  unfold rebaseInsert
  rw [count]
  -- before the held range, within it or at one of its ends, or behind it
  by_cases before : i < range.start
  · rw [if_pos before, shift_eq (inRange_of_room room (by omega) (by omega))
      (inRange_of_room room (by omega) (by omega))]
    refine ⟨mid, ⟨spliceAt pre i.toNat 0 put, post, ?_, ?_, ?_⟩, Follows.nil mid⟩
    · rw [List.append_assoc, spliceAt_append_left _ _ _ (by omega), List.append_assoc]
    · have := length_spliceAt pre put (p := i.toNat) (d := 0) (by omega)
      simp only
      omega
    · have := length_spliceAt pre put (p := i.toNat) (d := 0) (by omega)
      simp only
      omega
  · rw [if_neg before]
    by_cases within : i ≤ range.stop
    · rw [if_pos within, Index.add_eq_add (inRange_of_room room (by omega) (by omega))]
      have place : (i - range.start).toNat = i.toNat - pre.length := by omega
      refine ⟨_, ⟨pre, post, ?_, start, ?_⟩, inside (by omega) within⟩
      · rw [List.append_assoc, spliceAt_append_right _ _ _ _ (by omega),
          spliceAt_append_left _ _ _ (by omega), place, List.append_assoc]
      · have := length_spliceAt mid put (p := (i - range.start).toNat) (d := 0) (by omega)
        simp only
        omega
    · rw [if_neg within]
      refine ⟨mid, ⟨pre, spliceAt post (i.toNat - (pre ++ mid).length) 0 put, ?_, start, stop⟩,
        Follows.nil mid⟩
      rw [spliceAt_append_right _ _ _ _ (by rw [List.length_append]; omega)]

/-- What is held once items are taken out of the list. -/
theorem Holds.cut (holds : range.Holds xs mid) {p q : Nat} (le : p ≤ q) {next : Holding}
    (start : next.start = range.start - (min (q : Int) range.start - min (p : Int) range.start))
    (stop : next.stop = range.stop - (min (q : Int) range.stop - min (p : Int) range.stop)) :
    next.Holds (cut xs p q) (ListSync.cut mid (p - range.start.toNat) (q - range.start.toNat)) := by
  obtain ⟨pre, post, rfl, front, back⟩ := holds
  have first : range.start.toNat = pre.length := by omega
  refine ⟨ListSync.cut pre p q,
    ListSync.cut post (p - pre.length - mid.length) (q - pre.length - mid.length), ?_, ?_, ?_⟩
  · rw [List.append_assoc, cut_append _ _ le, cut_append _ _ (by omega), first,
      ← List.append_assoc]
  · rw [start, front, length_cut_eq_sub pre le]
  · have both := length_cut_eq_sub (pre ++ mid) le
    rw [cut_append _ _ le, List.length_append, List.length_append, ← first] at both
    push_cast at both
    rw [stop, back, both, first]

/-- Where a range stops once a run that reaches into it is deleted. -/
theorem stop_of_reaching {j a b : Int} (reaches : max i a < min j b) :
    b - (min j b - max i a) + -(min j a - min i a) = b - (min j b - min i b) := by
  omega

/-- A run that misses a range moves both its ends alike. -/
theorem stop_of_missing {j a b : Int} (misses : ¬max i a < min j b) (le : i ≤ j)
    (ordered : a ≤ b) : b + -(min j a - min i a) = b - (min j b - min i b) := by
  omega

/-- An end of a range that moves along with a deletion stays an index. -/
theorem inRange_of_deletion {n : Nat} (room : (n : Int) ≤ Index.greatest) {j a : Int} (low : 0 ≤ i)
    (le : i ≤ j) (positive : 0 ≤ a) (high : a ≤ n) :
    Index.InRange (a - (min j a - min i a)) :=
  inRange_of_room room (by omega) (by omega)

/-- The held items follow a deletion of a run of items of the list. -/
theorem rebaseDelete_holds (holds : range.Holds xs mid) {count : Nat} (low : 0 ≤ i)
    (high : i + count ≤ xs.length) (room : (xs.length : Int) ≤ Index.greatest) :
    ∃ mid', (range.rebaseDelete (α := α) i count).1.Holds (cut xs i.toNat (i.toNat + count)) mid'
      ∧ Follows (range.rebaseDelete i count).2.toList mid mid' := by
  obtain ⟨positive, ordered, within, -⟩ := holds_iff.1 holds
  obtain ⟨length, -, -⟩ := holds.length
  have runStop : Index.add i (Index.ofCount count) = i + count := by
    rw [Index.ofCount_eq_self (by omega), Index.add_eq_add]
    exact inRange_of_room room (by omega) (by omega)
  have first : (i.toNat : Int) = i := Int.toNat_of_nonneg low
  have last : ((i.toNat + count : Nat) : Int) = i + count := by
    rw [Int.natCast_add, first]
  have le : i ≤ i + count := by omega
  have start := inRange_of_deletion room low le positive (Int.le_trans ordered within)
  have stop := inRange_of_deletion room low le (Int.le_trans positive ordered) within
  unfold rebaseDelete
  rw [runStop]
  dsimp only
  -- either the run reaches into the held range, or what it takes out lies outside
  split
  · rename_i reaches
    have moved := stop_of_reaching reaches
    rw [shift_eq (by rwa [← Int.sub_eq_add_neg]) (by rwa [moved]), moved, ← Int.sub_eq_add_neg]
    refine ⟨_, holds.cut (Nat.le_add_right ..) (by rw [first, last]) (by rw [first, last]),
      Follows.one ?_ ?_ (by omega) ?_⟩
    -- what is left is about the edit alone
    all_goals clear start stop moved runStop
    · rw [Edit.deleteMany_fits]
      omega
    · have position : (max i range.start - range.start).toNat = i.toNat - range.start.toNat := by
        omega
      have run : i.toNat - range.start.toNat
          + (min (i + count) range.stop - max i range.start).toNat
          = min (i.toNat + count - range.start.toNat) mid.length := by
        omega
      rw [Edit.splice, if_pos (by omega), spliceAt_nil, position, run, cut_min]
    · intro j same
      have none := (Edit.deleteMany.inj same).2
      omega
  · rename_i misses
    have moved := stop_of_missing misses le ordered
    rw [shift_eq (by rwa [← Int.sub_eq_add_neg]) (by rwa [moved]), moved, ← Int.sub_eq_add_neg]
    have same : ListSync.cut mid (i.toNat - range.start.toNat)
        (i.toNat + count - range.start.toNat) = mid := by
      by_cases before : i + count ≤ range.start
      · have same : i.toNat - range.start.toNat = i.toNat + count - range.start.toNat := by omega
        rw [same, cut_same]
      · by_cases none : count = 0
        · rw [none, Nat.add_zero, cut_same]
        · exact cut_behind (by omega) (by omega)
    refine ⟨_, holds.cut (Nat.le_add_right ..) (by rw [first, last]) (by rw [first, last]), ?_⟩
    rw [same]
    exact Follows.nil mid

/-- The held items follow the deletion of one item of the list. -/
theorem rebaseOne_delete_holds (holds : range.Holds xs mid) (low : 0 ≤ i)
    (room : (xs.length : Int) ≤ Index.greatest) :
    ∃ mid', (range.rebaseOne (.delete i : Edit α)).1.Holds (cut xs i.toNat (i.toNat + 1)) mid'
      ∧ Follows (range.rebaseOne (.delete i)).2.toList mid mid' := by
  obtain ⟨length, stop, start⟩ := holds.length
  have le : i.toNat ≤ i.toNat + 1 := Nat.le_succ _
  unfold rebaseOne
  dsimp only
  -- the item lies before the held range, in it, or behind it; only the middle case reaches the
  -- client
  by_cases before : i < range.start
  · rw [if_pos before, shift_eq (inRange_of_room room (by omega) (by omega))
      (inRange_of_room room (by omega) (by omega))]
    have same : ListSync.cut mid (i.toNat - range.start.toNat) (i.toNat + 1 - range.start.toNat)
        = mid := by
      rw [show i.toNat - range.start.toNat = i.toNat + 1 - range.start.toNat by omega, cut_same]
    refine ⟨_, holds.cut le (by dsimp only; omega) (by dsimp only; omega), ?_⟩
    rw [same]
    exact Follows.nil mid
  · rw [if_neg before]
    by_cases within : i < range.stop
    · rw [if_pos within]
      refine ⟨_, holds.cut le (by dsimp only; omega) (by dsimp only; omega),
        Follows.one ?_ ?_ (by omega) (by rintro j ⟨⟩)⟩
      · rw [Edit.delete_fits]
        omega
      · rw [Edit.splice, if_pos (by omega), spliceAt_nil,
          show (i - range.start).toNat = i.toNat - range.start.toNat by omega,
          show i.toNat - range.start.toNat + 1 = i.toNat + 1 - range.start.toNat by omega]
    · rw [if_neg within]
      have same : ListSync.cut mid (i.toNat - range.start.toNat)
          (i.toNat + 1 - range.start.toNat) = mid := cut_behind (by omega) (by omega)
      refine ⟨_, holds.cut le (by dsimp only; omega) (by dsimp only; omega), ?_⟩
      rw [same]
      exact Follows.nil mid

/-- The held items follow the replacement of one item of the list. -/
theorem rebaseOne_set_holds (holds : range.Holds xs mid) (low : 0 ≤ i) (high : i < xs.length)
    (room : (xs.length : Int) ≤ Index.greatest) (x : α) :
    ∃ mid', (range.rebaseOne (.set i x)).1.Holds (spliceAt xs i.toNat 1 [x]) mid'
      ∧ Follows (range.rebaseOne (.set i x)).2.toList mid mid' := by
  obtain ⟨length, stop, start⟩ := holds.length
  obtain ⟨pre, post, rfl, front, back⟩ := holds
  simp only [List.length_append] at high
  unfold rebaseOne
  dsimp only
  -- an item is replaced in the held part, in front of it, or behind it
  by_cases within : range.start ≤ i ∧ i < range.stop
  · have place : (i - range.start).toNat = i.toNat - pre.length := by omega
    have same := length_spliceAt mid [x] (p := i.toNat - pre.length) (d := 1) (by omega)
    rw [if_pos within]
    refine ⟨spliceAt mid (i.toNat - pre.length) 1 [x], ⟨pre, post, ?_, front, ?_⟩,
      Follows.one ?_ ?_ (by omega) (by rintro j ⟨⟩)⟩
    · rw [List.append_assoc, spliceAt_append_right _ _ _ _ (by omega),
        spliceAt_append_left _ _ _ (by omega), List.append_assoc]
    · simp only [List.length_singleton] at same
      dsimp only
      omega
    · rw [Edit.set_fits]
      omega
    · rw [Edit.splice, if_pos (by omega), place]
  · rw [if_neg within]
    by_cases before : i < range.start
    · have same := length_spliceAt pre [x] (p := i.toNat) (d := 1) (by omega)
      simp only [List.length_singleton] at same
      refine ⟨mid, ⟨spliceAt pre i.toNat 1 [x], post, ?_, by dsimp only; omega,
        by dsimp only; omega⟩, Follows.nil mid⟩
      rw [List.append_assoc, spliceAt_append_left _ _ _ (by omega), List.append_assoc]
    · refine ⟨mid, ⟨pre, spliceAt post (i.toNat - (pre ++ mid).length) 1 [x], ?_, front, back⟩,
        Follows.nil mid⟩
      rw [spliceAt_append_right _ _ _ _ (by rw [List.length_append]; omega)]

/-- To delete no items changes nothing, wherever it is. -/
theorem rebaseDelete_zero (holds : range.Holds xs mid) (inRange : Index.InRange i)
    (room : (xs.length : Int) ≤ Index.greatest) :
    range.rebaseDelete (α := α) i 0 = (range, none) := by
  obtain ⟨start, ordered, stop, -⟩ := holds_iff.1 holds
  have runStop : Index.add i (Index.ofCount 0) = i := by
    rw [Index.ofCount_eq_self (by decide), Index.add_eq_add (by simpa using inRange)]
    exact Int.add_zero i
  unfold rebaseDelete
  rw [runStop]
  dsimp only
  rw [if_neg (by omega), shift_eq (inRange_of_room room (by omega) (by omega))
    (inRange_of_room room (by omega) (by omega))]
  simp

/-- What is held of a list follows an edit that fits the list. -/
theorem rebaseOne_holds (holds : range.Holds xs mid) {e : Edit α}
    (fits : e.misfit? xs.length = none) (inRange : e.InRange)
    (room : (xs.length : Int) ≤ Index.greatest)
    (room' : ((e.splice xs).length : Int) ≤ Index.greatest) :
    ∃ mid', (range.rebaseOne e).1.Holds (e.splice xs) mid'
      ∧ Follows (range.rebaseOne e).2.toList mid mid' := by
  obtain ⟨length, stop, start⟩ := holds.length
  cases e with
  | insert i x =>
    have inside := Edit.insert_fits.1 fits
    have grown := length_spliceAt xs [x] (p := i.toNat) (d := 0) (by omega)
    rw [Edit.splice, if_pos inside] at room' ⊢
    refine rebaseInsert_holds holds inside.1 inside.2 [x] (by omega) ?_
    intro low high
    refine Follows.one (Edit.insert_fits.2 (by omega)) ?_ (by omega) (by rintro j ⟨⟩)
    rw [Edit.splice, if_pos (by omega)]
  | insertMany i put =>
    have inside := Edit.insertMany_fits.1 fits
    have grown := length_spliceAt xs put (p := i.toNat) (d := 0) (by omega)
    rw [Edit.splice, if_pos inside] at room' ⊢
    refine rebaseInsert_holds holds inside.1 inside.2 put (by omega) ?_
    intro low high
    refine Follows.one (Edit.insertMany_fits.2 (by omega)) ?_ (by omega) (by rintro j ⟨⟩)
    rw [Edit.splice, if_pos (by omega)]
  | delete i =>
    have inside := Edit.delete_fits.1 fits
    rw [Edit.splice, if_pos inside, spliceAt_nil]
    exact rebaseOne_delete_holds holds inside.1 room
  | set i x =>
    have inside := Edit.set_fits.1 fits
    rw [Edit.splice, if_pos inside]
    exact rebaseOne_set_holds holds inside.1 inside.2 room x
  | deleteMany i count =>
    -- no items can be deleted anywhere, even where there is no position
    rcases Edit.deleteMany_fits.1 fits with rfl | ⟨low, inside, high⟩
    · rw [Edit.splice_deleteMany_zero, rebaseOne, rebaseDelete_zero holds
        (show Index.InRange i from inRange.index) room]
      exact ⟨mid, holds, Follows.nil mid⟩
    · rw [Edit.splice, if_pos ⟨low, inside⟩, spliceAt_nil]
      exact rebaseDelete_holds holds low high room

/-! ## Batches -/

/-- The list fits into memory all through a batch: its items take more than a byte each, and there
are no more bytes than positive indices. -/
def Roomy (xs : List α) : List (Edit α) → Prop
  | [] => xs.length < Index.greatest
  | e :: edits => xs.length < Index.greatest ∧ Roomy (e.splice xs) edits

instance decRoomy : (xs : List α) → (edits : List (Edit α)) → Decidable (Roomy xs edits)
  | _, [] => inferInstanceAs (Decidable (_ < _))
  | xs, e :: edits => @instDecidableAnd _ _ _ (decRoomy (e.splice xs) edits)

/-- A list that fits into memory all through a batch fits before it. -/
theorem Roomy.here {edits : List (Edit α)} (h : Roomy xs edits) : xs.length < Index.greatest := by
  cases edits with
  | nil => exact h
  | cons e edits => exact h.1

/-- A list that fits into memory all through a batch fits after it. -/
theorem Roomy.last {edits : List (Edit α)} (h : Roomy xs edits) :
    (Edit.spliceAll edits xs).length < Index.greatest := by
  induction edits generalizing xs with
  | nil => exact h
  | cons e edits ih => exact ih h.2

/-- Whether every deletion of a batch that overruns the list begins at the end of the held range, as
that has become by then, or behind it. -/
def spares (range : Holding) (xs : List α) : List (Edit α) → Bool
  | [] => true
  | e :: edits =>
    match e.misfit? xs.length with
    | none => (range.rebaseOne e).1.spares (e.splice xs) edits
    | some (.outOfBounds ..) => range.spares (e.splice xs) edits
    | some (.overrun _ _ i) => range.stop ≤ i && range.spares (e.splice xs) edits

/-- Items that a deletion takes from behind the held range are not missed. -/
theorem Holds.cut_behind (holds : range.Holds xs mid) {p q : Nat} (le : p ≤ q)
    (behind : range.stop ≤ p) : range.Holds (ListSync.cut xs p q) mid := by
  obtain ⟨pre, post, rfl, front, back⟩ := holds
  refine ⟨pre, ListSync.cut post (p - (pre ++ mid).length) (q - (pre ++ mid).length), ?_, front,
    back⟩
  have whole : (pre ++ mid).length ≤ p := by
    rw [List.length_append]
    omega
  rw [cut_append _ _ le, ListSync.cut_behind whole le]

/-- Nor are those of a deletion that begins behind it. -/
theorem Holds.deleteMany_behind (holds : range.Holds xs mid) {i : Int} {count : Nat} (low : 0 ≤ i)
    (inside : i < xs.length) (behind : range.stop ≤ i) :
    range.Holds ((Edit.deleteMany i count).splice xs) mid := by
  rw [Edit.splice, if_pos ⟨low, inside⟩, spliceAt_nil]
  exact holds.cut_behind (Nat.le_add_right ..) (by omega)

/-- Where a batch spares the held range, the held items follow what is left of it once it is
rebased. -/
theorem rebaseAll_holds (edits : List (Edit α)) (holds : range.Holds xs mid)
    (inRange : ∀ e ∈ edits, e.InRange) (room : Roomy xs edits) (spared : range.spares xs edits) :
    ∃ mid', (range.rebaseAll (Edit.survivors xs edits)).1.Holds (Edit.spliceAll edits xs) mid'
      ∧ Follows (range.rebaseAll (Edit.survivors xs edits)).2 mid mid' := by
  induction edits generalizing range xs mid with
  | nil => exact ⟨mid, holds, Follows.nil mid⟩
  | cons e edits ih =>
    have rest : ∀ e' ∈ edits, e'.InRange := fun e' h => inRange e' (List.mem_cons_of_mem e h)
    have now := room.1
    have next := room.2.here
    rw [spares] at spared
    rw [Edit.survivors, Edit.spliceAll_cons]
    cases hm : e.misfit? xs.length with
    | none =>
      rw [hm] at spared
      rw [if_pos rfl]
      obtain ⟨mid', held, follows⟩ := rebaseOne_holds holds hm (inRange e List.mem_cons_self)
        (by omega) (by omega)
      obtain ⟨last, held', follows'⟩ := ih held rest room.2 spared
      exact ⟨last, held', follows.append follows'⟩
    | some misfit =>
      rw [hm] at spared
      rw [if_neg (by simp)]
      cases misfit with
      | outOfBounds i n =>
        have same := Edit.splice_of_outOfBounds hm
        exact ih (same.symm ▸ holds) rest room.2 spared
      | overrun count available i =>
        obtain ⟨rfl, low, inside, overruns⟩ := Edit.eq_deleteMany_of_overrun hm
        simp only [Bool.and_eq_true, decide_eq_true_eq] at spared
        -- it is not rebased, but what it takes out of the list is not held
        exact ih (holds.deleteMany_behind low inside spared.1) rest room.2 spared.2

/-! ## Batches that do not spare the held range -/

/-- A range that reaches beyond the end of a list. -/
structure Lost (range : Holding) (xs : List α) : Prop where
  beyond : xs.length < range.stop
  inRange : range.stop ≤ Index.greatest

/-- The end of a range that is moved within the indices is not bent. -/
theorem stop_shift {d : Int} (stop : Index.InRange (range.stop + d)) :
    (range.shift d).stop = range.stop + d := Index.add_eq_add stop

/-- An insertion moves the end of the range as far as that of the list, or to the last index. -/
theorem Lost.rebaseInsert (lost : Lost range xs) (place : 0 ≤ i ∧ i ≤ xs.length) (put : List α)
    (room : (spliceAt xs i.toNat 0 put).length < Index.greatest) (e : Edit α) :
    Lost (range.rebaseInsert i put.length e).1 (spliceAt xs i.toNat 0 put) := by
  obtain ⟨beyond, inRange⟩ := lost
  have length : (spliceAt xs i.toNat 0 put).length = xs.length + put.length :=
    length_spliceAt xs put (p := i.toNat) (d := 0) (by omega)
  rw [length] at room
  -- the end of the list has room below the last index, so it is passed even there
  have moved : ((xs.length + put.length : Nat) : Int) < Index.add range.stop put.length
      ∧ Index.add range.stop put.length ≤ Index.greatest := by
    simp only [Index.add, Index.clamp, Index.least, Index.greatest] at *
    omega
  have stop : (range.rebaseInsert i put.length e).1.stop = Index.add range.stop put.length := by
    unfold Holding.rebaseInsert
    rw [Index.ofCount_eq_self (by omega)]
    by_cases before : i < range.start
    · rw [if_pos before]
      rfl
    · rw [if_neg before, if_pos (by omega)]
  exact ⟨by rw [length, stop]; exact moved.1, stop ▸ moved.2⟩

/-- A deletion moves the end of the range as far as that of the list. -/
theorem Lost.stop_rebaseDelete (lost : Lost range xs) {count : Nat} (index : Index.InRange i)
    (inside : count = 0 ∨ 0 ≤ i ∧ i + count ≤ xs.length) :
    (range.rebaseDelete (α := α) i count).1.stop = range.stop - count := by
  obtain ⟨beyond, inRange⟩ := lost
  have fits (d : Int) (low : 0 ≤ d) (high : d ≤ range.stop) : Index.InRange d := by
    simp only [Index.InRange, Index.least, Index.greatest] at *
    omega
  have runStop : Index.add i (Index.ofCount count) = i + count := by
    rw [Index.ofCount_eq_self (by omega)]
    rcases inside with rfl | ⟨low, high⟩
    · exact Index.add_eq_add (by simpa using index)
    · exact Index.add_eq_add (fits _ (by omega) (by omega))
  unfold rebaseDelete
  rw [runStop]
  dsimp only
  split
  · rw [stop_shift (fits _ (by dsimp only; omega) (by dsimp only; omega))]
    dsimp only
    omega
  · rw [stop_shift (fits _ (by omega) (by omega))]
    omega

/-- An edit that fits does not bring the two ends together again. -/
theorem Lost.rebaseOne (lost : Lost range xs) {e : Edit α} (fits : e.misfit? xs.length = none)
    (inRange : e.InRange) (room : (e.splice xs).length < Index.greatest) :
    Lost (range.rebaseOne e).1 (e.splice xs) := by
  have ⟨beyond, inside⟩ := lost
  cases e with
  | insert i x =>
    have place := Edit.insert_fits.1 fits
    rw [Edit.splice, if_pos place] at room ⊢
    exact lost.rebaseInsert place [x] room _
  | insertMany i put =>
    have place := Edit.insertMany_fits.1 fits
    rw [Edit.splice, if_pos place] at room ⊢
    exact lost.rebaseInsert place put room _
  | delete i =>
    have place := Edit.delete_fits.1 fits
    have stop : (range.rebaseOne (.delete i : Edit α)).1.stop = range.stop - 1 := by
      unfold Holding.rebaseOne
      dsimp only
      by_cases before : i < range.start
      · rw [if_pos before]
        refine stop_shift ?_
        simp only [Index.InRange, Index.least, Index.greatest] at *
        omega
      · rw [if_neg before, if_pos (by omega)]
    rw [Edit.splice, if_pos place, spliceAt_nil]
    refine ⟨?_, by omega⟩
    rw [length_cut, stop]
    omega
  | set i x =>
    have place := Edit.set_fits.1 fits
    have same := length_spliceAt xs [x] (p := i.toNat) (d := 1) (by omega)
    have stop : (range.rebaseOne (.set i x)).1.stop = range.stop := by
      unfold Holding.rebaseOne
      dsimp only
      split <;> rfl
    rw [List.length_singleton] at same
    rw [Edit.splice, if_pos place]
    exact ⟨by omega, by omega⟩
  | deleteMany i count =>
    have index : Index.InRange i := inRange.index
    rcases Edit.deleteMany_fits.1 fits with rfl | ⟨low, high, run⟩
    · have stop : (range.rebaseOne (.deleteMany i 0 : Edit α)).1.stop = range.stop - (0 : Nat) :=
        lost.stop_rebaseDelete index (.inl rfl)
      rw [Edit.splice_deleteMany_zero]
      exact ⟨by omega, by omega⟩
    · have stop : (range.rebaseOne (.deleteMany i count : Edit α)).1.stop = range.stop - count :=
        lost.stop_rebaseDelete index (.inr ⟨low, run⟩)
      rw [Edit.splice, if_pos ⟨low, high⟩, spliceAt_nil]
      refine ⟨?_, by omega⟩
      rw [length_cut, stop]
      omega

/-- A deletion that overruns a list leaves what comes before it. -/
theorem length_overrun {i : Int} {count : Nat} (low : 0 ≤ i) (inside : i < xs.length)
    (overruns : xs.length < i + count) :
    ((Edit.deleteMany i count).splice xs).length = i.toNat := by
  rw [Edit.splice, if_pos ⟨low, inside⟩, spliceAt_nil, length_cut]
  omega

/-- A range that reaches beyond the end of the list does so for the rest of a batch. -/
theorem Lost.rebaseAll (edits : List (Edit α)) (lost : Lost range xs)
    (inRange : ∀ e ∈ edits, e.InRange) (room : Roomy xs edits) :
    Lost (range.rebaseAll (Edit.survivors xs edits)).1 (Edit.spliceAll edits xs) := by
  induction edits generalizing range xs with
  | nil => exact lost
  | cons e edits ih =>
    have rest : ∀ e' ∈ edits, e'.InRange := fun e' h => inRange e' (List.mem_cons_of_mem e h)
    rw [Edit.survivors, Edit.spliceAll_cons]
    cases hm : e.misfit? xs.length with
    | none =>
      rw [if_pos rfl]
      exact ih (lost.rebaseOne hm (inRange e List.mem_cons_self) room.2.here) rest room.2
    | some misfit =>
      rw [if_neg (by simp)]
      refine ih ?_ rest room.2
      -- what is left out of the rebased edits makes the list shorter, if it changes it at all
      cases misfit with
      | outOfBounds i n => rwa [Edit.splice_of_outOfBounds hm]
      | overrun count available i =>
        obtain ⟨rfl, low, inside, overruns⟩ := Edit.eq_deleteMany_of_overrun hm
        have length := length_overrun low inside overruns
        obtain ⟨beyond, inRange⟩ := lost
        exact ⟨by omega, inRange⟩

/-- A batch that does not spare the held range leaves it reaching beyond the end of the list. -/
theorem lost_of_not_spares (edits : List (Edit α)) (holds : range.Holds xs mid)
    (inRange : ∀ e ∈ edits, e.InRange) (room : Roomy xs edits) (hit : ¬range.spares xs edits) :
    Lost (range.rebaseAll (Edit.survivors xs edits)).1 (Edit.spliceAll edits xs) := by
  induction edits generalizing range xs mid with
  | nil => exact absurd rfl hit
  | cons e edits ih =>
    have rest : ∀ e' ∈ edits, e'.InRange := fun e' h => inRange e' (List.mem_cons_of_mem e h)
    have now := room.1
    have next := room.2.here
    rw [spares] at hit
    rw [Edit.survivors, Edit.spliceAll_cons]
    cases hm : e.misfit? xs.length with
    | none =>
      rw [hm] at hit
      rw [if_pos rfl]
      obtain ⟨mid', held, -⟩ := rebaseOne_holds holds hm (inRange e List.mem_cons_self)
        (by omega) (by omega)
      exact ih held rest room.2 hit
    | some misfit =>
      rw [hm] at hit
      rw [if_neg (by simp)]
      cases misfit with
      | outOfBounds i n =>
        have same := Edit.splice_of_outOfBounds hm
        exact ih (same.symm ▸ holds) rest room.2 hit
      | overrun count available i =>
        obtain ⟨rfl, low, inside, overruns⟩ := Edit.eq_deleteMany_of_overrun hm
        have length := length_overrun low inside overruns
        obtain ⟨-, stop, -⟩ := holds.length
        -- the first deletion that begins in the range takes the end of the list back behind that
        -- of the range, and nothing brings the two together again
        by_cases behind : range.stop ≤ i
        · refine ih (holds.deleteMany_behind low inside behind) rest room.2 ?_
          intro spared
          apply hit
          simp only [behind, decide_true, Bool.true_and, spared]
        · exact Lost.rebaseAll edits ⟨by omega, by omega⟩ rest room.2

/-- A batch that leaves the held range within the list has spared it. -/
theorem spares_of_within (edits : List (Edit α)) (holds : range.Holds xs mid)
    (inRange : ∀ e ∈ edits, e.InRange) (room : Roomy xs edits)
    (within : (range.rebaseAll (Edit.survivors xs edits)).1.stop
      ≤ (Edit.spliceAll edits xs).length) : range.spares xs edits := by
  refine Decidable.byContradiction fun hit => ?_
  exact absurd (lost_of_not_spares edits holds inRange room hit).beyond (Int.not_lt.2 within)

end Holding

end ListSync.Producer
