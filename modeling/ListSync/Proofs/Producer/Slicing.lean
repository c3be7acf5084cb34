import ListSync.Proofs.Producer.Serving

/-!
# Which items are served for a range

A client asks an index list for a number of items from an index on. What it is told should be the
items that the list has in this range, each at its index (`FullList.Tells`). A range that begins
before the list does is moved as a whole: its start is put to zero and its length is left as it is,
so that items are served which lie behind it (`tells_slice`). This shows exactly when the range ends
before the list does (`FullList.Slips`), and is the only way to be served other items than those
asked for (`slice_exact_iff`).
-/

namespace ListSync.Producer

/-! ## Items with their indices -/

/-- Items with their indices, counted from a first one on. -/
def withIndices (first : Int) : List Item → List (Int × Item)
  | [] => []
  | x :: xs => (first, x) :: withIndices (first + 1) xs

/-- The indices of some items run from the first one on. -/
theorem mem_withIndices {first : Int} {xs : List Item} {i : Int} :
    (∃ x, (i, x) ∈ withIndices first xs) ↔ first ≤ i ∧ i < first + xs.length := by
  induction xs generalizing first with
  | nil =>
    simp only [withIndices, List.not_mem_nil, exists_false, List.length_nil, false_iff]
    omega
  | cons y ys ih =>
    simp only [withIndices, List.mem_cons, Prod.mk.injEq, exists_or, ih, List.length_cons,
      exists_and_left, exists_eq, and_true]
    omega

/-- The items of a list whose indices lie in a range, with these indices. -/
def within (asked : Span) (xs : List Item) : List (Int × Item) :=
  (withIndices 0 xs).filter fun e => asked.start ≤ e.1 ∧ e.1 < asked.stop

/-- Two ranges have the same items of a list exactly when they cover the same indices of it. -/
theorem within_eq_iff {asked other : Span} {xs : List Item} :
    within asked xs = within other xs
      ↔ ∀ i : Int, 0 ≤ i → i < xs.length → (asked.Covers i ↔ other.Covers i) := by
  constructor
  · intro same i first last
    obtain ⟨x, indexed⟩ := mem_withIndices.2 (show 0 ≤ i ∧ i < 0 + (xs.length : Int) by omega)
    have member : (i, x) ∈ within asked xs ↔ (i, x) ∈ within other xs := by rw [same]
    simpa [within, indexed, Span.Covers] using member
  · intro same
    refine List.filter_congr fun e indexed => ?_
    obtain ⟨first, last⟩ := mem_withIndices.1 ⟨e.2, indexed⟩
    rw [decide_eq_decide]
    exact same e.1 first (by omega)

/-- Of items with their indices those in a range are a segment. -/
theorem filter_withIndices (first : Int) (asked : Span) (xs : List Item) :
    ((withIndices first xs).filter fun e => asked.start ≤ e.1 ∧ e.1 < asked.stop)
      = withIndices (first + (asked.start - first).toNat)
        (segment xs (asked.start - first).toNat (asked.stop - first).toNat) := by
  -- over the items: the first one decides whether both ends of the segment move on by one
  induction xs generalizing first with
  | nil => simp [withIndices, segment]
  | cons x xs ih =>
    rw [withIndices, List.filter_cons, ih (first + 1)]
    rcases Int.lt_or_le first asked.start with before | begun
    · -- the first item lies before the range
      have start : (asked.start - first).toNat = (asked.start - (first + 1)).toNat + 1 := by omega
      rw [if_neg (by simp only [decide_eq_true_eq]; omega), start]
      rcases Int.lt_or_le first asked.stop with ahead | ended
      · have stop : (asked.stop - first).toNat = (asked.stop - (first + 1)).toNat + 1 := by omega
        have moved : first + 1 + ((asked.start - (first + 1)).toNat : Int)
            = first + ((asked.start - (first + 1)).toNat + 1 : Nat) := by omega
        rw [stop, moved]
        rfl
      · rw [segment_nil xs (by omega), segment_nil (x :: xs) (by omega)]
        rfl
    · have start : (asked.start - first).toNat = 0 := by omega
      have start' : (asked.start - (first + 1)).toNat = 0 := by omega
      rw [start, start']
      rcases Int.lt_or_le first asked.stop with ahead | ended
      · have stop : (asked.stop - first).toNat = (asked.stop - (first + 1)).toNat + 1 := by omega
        rw [if_pos (by simp only [decide_eq_true_eq]; omega), stop]
        simp [withIndices, segment]
      · have stop : (asked.stop - first).toNat = 0 := by omega
        have stop' : (asked.stop - (first + 1)).toNat = 0 := by omega
        rw [if_neg (by simp only [decide_eq_true_eq]; omega), stop, stop']
        rfl

/-- The items in a range are a segment of the list. -/
theorem within_eq (asked : Span) (xs : List Item) :
    within asked xs = withIndices asked.start.toNat
      (segment xs asked.start.toNat asked.stop.toNat) := by
  have parts := filter_withIndices 0 asked xs
  rwa [Int.sub_zero, Int.sub_zero, Int.zero_add] at parts

namespace FullList

/-! ## Slices -/

/-- A client is told of a list which items lie in a range, and where the list ends. -/
structure Tells (l : FullList) (asked : Span) (start : Int) (items : List Item)
    (minimum maximum : Option Int) : Prop where
  items : withIndices start items = within asked l.items
  minimum : minimum = some 0
  maximum : maximum = some (l.items.length : Int)

/-- So many items are asked for from an index before the list on that the list has some of as many
from its first one on, but lasts longer than the range that was asked for. -/
def Slips (l : FullList) (start : Int) (count : Nat) : Prop :=
  start < 0 ∧ 0 < count ∧ l.items ≠ [] ∧ start + count < l.items.length

instance (l : FullList) (start : Int) (count : Nat) : Decidable (l.Slips start count) :=
  inferInstanceAs (Decidable (_ ∧ _ ∧ _ ∧ _))

variable {l : FullList}

/-- Served are the items of as long a range as was asked for, which begins with the list if the
other one begins before. -/
theorem tells_slice (l : FullList) (start : Int) (count : Nat) :
    l.Tells ⟨max start 0, max start 0 + count⟩ (l.slice start count).1
      (l.sliceItems (l.slice start count)) (some 0) (some l.items.length) := by
  refine ⟨?_, rfl, rfl⟩
  have stop : (max start 0 + count).toNat = (max start 0).toNat + count := by omega
  rw [within_eq, stop]
  show withIndices ((min (max start 0).toNat l.items.length : Nat) : Int)
    (segment l.items (min (max start 0).toNat l.items.length)
      (min (min (max start 0).toNat l.items.length + count) l.items.length)) = _
  rcases Nat.le_total (max start 0).toNat l.items.length with inside | beyond
  · have same : l.items.take (min ((max start 0).toNat + count) l.items.length)
        = l.items.take ((max start 0).toNat + count) := by
      rw [List.take_eq_take_iff, Nat.min_assoc, Nat.min_self]
    rw [Nat.min_eq_left inside, segment, same, segment]
  · -- there are no items so far behind
    have none : segment l.items (max start 0).toNat ((max start 0).toNat + count) = [] := by
      rw [segment, List.drop_eq_nil_of_le]
      rw [List.length_take]
      omega
    rw [none, segment_nil l.items (by omega)]
    rfl

/-- What is told of one range is told of another exactly when both cover the same items. -/
theorem Tells.iff {asked other : Span} {start : Int} {items : List Item}
    {minimum maximum : Option Int} (tells : l.Tells asked start items minimum maximum) :
    l.Tells other start items minimum maximum
      ↔ ∀ i : Int, 0 ≤ i → i < l.items.length → (asked.Covers i ↔ other.Covers i) := by
  rw [← within_eq_iff]
  exact ⟨fun tells' => tells.items.symm.trans tells'.items,
    fun same => ⟨tells.items.trans same, tells.minimum, tells.maximum⟩⟩

/-- The range that is served covers the same items as the one that was asked for exactly when it
does not slip. -/
theorem covers_iff_not_slips (l : FullList) (start : Int) (count : Nat) :
    (∀ i : Int, 0 ≤ i → i < l.items.length →
      ((⟨max start 0, max start 0 + count⟩ : Span).Covers i
        ↔ (⟨start, start + count⟩ : Span).Covers i)) ↔ ¬l.Slips start count := by
  simp only [Span.Covers]
  constructor
  · -- the item behind the range that was asked for is served
    rintro same ⟨before, some, given, ends⟩
    have length := List.length_pos_of_ne_nil given
    have served := same (max 0 (start + count)) (by omega) (by omega)
    omega
  · intro keeps i first last
    have given : l.items ≠ [] := by
      rintro nil
      rw [nil] at last
      simp only [List.length_nil] at last
      omega
    simp only [Slips, given, ne_eq, not_false_eq_true, true_and, not_and, Int.not_lt] at keeps
    omega

/-- Whatever range of an index list is asked for, in a fetch or for a start, its items are served at
their indices together with the bounds of the list, exactly as long as the range does not slip; and
as many items as there are from the start of the list on otherwise. -/
theorem slice_exact_iff (index : l.kind = .index) :
    (∀ token listId start count, ∃ a, l.respond (.range token listId start count) = .ok (.range a)
      ∧ a.listId = l.id ∧ a.token = token
      ∧ l.Tells ⟨max start 0, max start 0 + count⟩ a.start a.items a.minimum a.maximum
      ∧ (l.Tells ⟨start, start + count⟩ a.start a.items a.minimum a.maximum
        ↔ ¬l.Slips start count))
    ∧ ∀ q : Query, ∃ p, l.initial q = .ok (.index p) ∧ p.listId = l.id
      ∧ l.Tells ⟨max (q.start.getD 0) 0, max (q.start.getD 0) 0 + (q.count.getD l.pageSize : Nat)⟩
        p.start p.items p.minimum p.maximum
      ∧ (l.Tells ⟨q.start.getD 0, q.start.getD 0 + (q.count.getD l.pageSize : Nat)⟩
          p.start p.items p.minimum p.maximum
        ↔ ¬l.Slips (q.start.getD 0) (q.count.getD l.pageSize)) := by
  have exact (start : Int) (count : Nat) :=
    (l.tells_slice start count).iff.trans (l.covers_iff_not_slips start count)
  constructor
  · intro token listId start count
    exact ⟨_, respond_range index token listId start count, rfl, rfl, l.tells_slice start count,
      exact start count⟩
  · intro q
    exact ⟨_, initial_range index q, rfl, l.tells_slice _ _, exact _ _⟩

/-- An index list of three letters. -/
def threeLetters : FullList := ⟨"l", .index, 0, [.str "a", .str "b", .str "c"], 10, by decide⟩

/-- Ranges that reach around the list, or end where it begins, are served exactly. -/
theorem slice_exact_iff_threeLetters :
    threeLetters.kind = .index
    ∧ (∃ a, threeLetters.respond (.range "101" "l" (-2) 18446744073709551615) = .ok (.range a)
      ∧ threeLetters.Tells ⟨-2, -2 + (18446744073709551615 : Nat)⟩ a.start a.items a.minimum
        a.maximum
      ∧ a.items = [.str "a", .str "b", .str "c"])
    ∧ ∃ p, threeLetters.initial ⟨some 1, some 1, none⟩ = .ok (.index p)
      ∧ threeLetters.Tells ⟨1, 1 + (1 : Nat)⟩ p.start p.items p.minimum p.maximum
      ∧ p.items = [.str "b"] := by
  obtain ⟨answers, starts⟩ := slice_exact_iff (l := threeLetters) rfl
  obtain ⟨a, answered, -, -, -, exact⟩ := answers "101" "l" (-2) 18446744073709551615
  obtain ⟨p, started, -, -, exact'⟩ := starts ⟨some 1, some 1, none⟩
  refine ⟨rfl, ⟨a, answered, exact.2 (by decide), ?_⟩, p, started, exact'.2 (by decide), ?_⟩
  · cases answered
    decide
  · cases started
    decide

/-- Of the two indices before the second item one is before the list, and still two items are
served. -/
theorem slice_moved_threeLetters :
    threeLetters.respond (.range "101" "l" (-1) 2) = .ok (.range
        ⟨"l", "101", none, 0, some 0, some 3, [.str "a", .str "b"]⟩)
    ∧ within ⟨-1, -1 + (2 : Nat)⟩ threeLetters.items = [(0, .str "a")]
    ∧ ¬threeLetters.Tells ⟨-1, -1 + (2 : Nat)⟩ 0 [.str "a", .str "b"] (some 0) (some 3) :=
  ⟨by decide, by decide, fun tells => absurd tells.items (by decide)⟩

end FullList

end ListSync.Producer
