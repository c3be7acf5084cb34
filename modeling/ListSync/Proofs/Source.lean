import ListSync.Proofs.Producer.Serving
import ListSync.Proofs.Session.Loading

/-!
# Items with absolute indices

A `Source` holds items at the indices from a first one on. A list shows an excerpt of a source when
its loaded items are the items of the source over its window (`Excerpt`). It still does when it
takes up items that the source has for a range (`Excerpt.absorbed`).
-/

namespace ListSync

open Producer

/-- Items at the indices from a first one on. -/
structure Source where
  first : Int
  items : List Item

namespace Source

/-- The index behind the last item. -/
def stop (src : Source) : Int := src.first + src.items.length

/-- The items from one index up to another, as far as there are any. -/
def between (src : Source) (a b : Int) : List Item :=
  segment src.items (a - src.first).toNat (b - src.first).toNat

variable {src : Source} {a b a' b' : Int}

/-- How many items there are between two indices. -/
theorem length_between (src : Source) (a b : Int) : ((src.between a b).length : Int)
    = max 0 (min b src.stop - max a src.first) := by
  rw [between, Producer.segment, List.length_drop, List.length_take, stop]
  omega

/-- The items between two indices of the source are as many as the indices. -/
theorem length_between_of_le (first : src.first ≤ a) (ordered : a ≤ b) (last : b ≤ src.stop) :
    a + (src.between a b).length = b := by
  rw [length_between]
  omega

/-- Beyond the ends of the source there are no further items. -/
theorem between_eq_inner (src : Source) (a b : Int) :
    src.between a b = src.between (max a src.first) (min b src.stop) := by
  have front : (max a src.first - src.first).toNat = (a - src.first).toNat := by omega
  have back : src.items.take (min b src.stop - src.first).toNat
      = src.items.take (b - src.first).toNat := by
    rw [List.take_eq_take_iff, stop]
    omega
  rw [between, between, Producer.segment, Producer.segment, front, back]

/-- Between two ranges that touch, what the one adds to the other. -/
theorem between_union (first : src.first ≤ a) (first' : src.first ≤ a') (ordered : a ≤ b)
    (front : a' ≤ b) (back : a ≤ b') :
    (src.between a' b').take (a - a').toNat ++ src.between a b
        ++ (src.between a' b').drop (b - a').toNat = src.between (min a' a) (max b' b) := by
  have before : (a - a').toNat = (a - src.first).toNat - (a' - src.first).toNat := by omega
  have behind : (b - a').toNat = (b - src.first).toNat - (a' - src.first).toNat := by omega
  have starts : (min a' a - src.first).toNat
      = min (a - src.first).toNat (a' - src.first).toNat := by omega
  have stops : (max b' b - src.first).toNat
      = max (b - src.first).toNat (b' - src.first).toNat := by omega
  rw [between, between, between, starts, stops, before, behind]
  exact segment_union src.items (by omega) (by omega) (by omega)

/-- Items that are fetched from a source: those of a range, or none. -/
def Offers (src : Source) (start : Int) (items : List Item) : Prop :=
  items = [] ∨ src.first ≤ start ∧ start + items.length ≤ src.stop
    ∧ items = src.between start (start + items.length)

/-- The loaded items of a list are the items of a source over the window of the list. -/
structure Excerpt (src : Source) (l : LoadedList) (w : IndexWindow) : Prop where
  first : src.first ≤ w.start
  last : w.start + w.count ≤ src.stop
  items : l.items = src.between w.start (w.start + w.count)

/-- An excerpt stays one as long as neither the items nor their place change. -/
theorem Excerpt.keep {l l' : LoadedList} {w w' : IndexWindow} (excerpt : src.Excerpt l w)
    (items : l'.items = l.items) (start : w'.start = w.start) (count : w'.count = w.count) :
    src.Excerpt l' w' := by
  refine ⟨start ▸ excerpt.first, ?_, ?_⟩
  · rw [start, count]
    exact excerpt.last
  · rw [items, start, count]
    exact excerpt.items

/-- It stays one when it takes up items of the source. -/
theorem Excerpt.absorbed {l : LoadedList} {w next : IndexWindow} {start : Int} {items : List Item}
    {asked : Span} {lo hi : Option Int} {p : IndexWindow.MergePlan} (excerpt : src.Excerpt l w)
    (placed : Index.Placed w.start w.count) (inRange : Index.InRange start)
    (room : start + items.length ≤ Index.greatest) (offers : src.Offers start items)
    (h : w.absorb asked start items.length lo hi = .ok (p, next)) (window : Window) :
    src.Excerpt { l with items := items.take p.front.stop ++ l.items ++ items.drop p.back.start
                         window } next := by
  rcases IndexWindow.absorb_cases placed inRange room h with idle | ⟨touches, rfl, begins, ends⟩
  -- nothing is taken up
  · refine excerpt.keep ?_ idle.start idle.count
    dsimp only
    rw [idle.front, List.take_zero, List.nil_append, List.drop_eq_nil_of_le idle.back,
      List.append_nil]
  · rcases offers with rfl | ⟨first, last, cut⟩
    -- an answer without items adds none, wherever it touches
    · have idle := IndexWindow.idle_of_empty placed.first inRange h
      refine excerpt.keep ?_ idle.start idle.count
      dsimp only
      rw [List.take_nil, List.drop_nil, List.append_nil, List.nil_append]
    · refine ⟨begins ▸ Int.le_min.2 ⟨first, excerpt.first⟩,
        ends ▸ Int.max_le.2 ⟨last, excerpt.last⟩, ?_⟩
      have behind (k : Nat) : items.drop (min items.length k) = items.drop k :=
        List.drop_eq_drop_iff.2 (by omega)
      have union := between_union excerpt.first first
        (a := w.start) (b := w.start + w.count) (by omega) touches.1 touches.2
      rw [← cut, ← excerpt.items] at union
      dsimp only [IndexWindow.joinPlan]
      rw [behind, union, begins, ← ends, begins]

end Source

end ListSync
