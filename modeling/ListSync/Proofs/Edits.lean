import ListSync.Edit.Splice

/-!
# Edits of a part of a list

An edit that addresses one part of a list leaves the other parts alone, and a deletion that reaches
over several parts takes out of each what lies in it (`cut_append`). Of a batch, the edits that fit
the items as they are when they are reached are its `survivors`; all others are named in the
warnings (`survivors_of_warnings`), and a batch that fits throughout has none
(`warnings_of_fitting`).
-/

namespace ListSync

variable {α : Type}

/-! ## Splices and parts -/

/-- Take out the items from one position up to another. -/
def cut (xs : List α) (p q : Nat) : List α := xs.take p ++ xs.drop q

/-- To put nothing in place of some items is to cut them out. -/
theorem spliceAt_nil (xs : List α) (p d : Nat) : spliceAt xs p d [] = cut xs p (p + d) := by
  rw [spliceAt, List.append_nil, cut]

/-- To take items out of two parts is to take out of each what lies in it. -/
theorem cut_append (a b : List α) {p q : Nat} (h : p ≤ q) :
    cut (a ++ b) p q = cut a p q ++ cut b (p - a.length) (q - a.length) := by
  simp only [cut, List.take_append, List.drop_append]
  rcases Nat.le_total p a.length with inside | behind
  · rw [Nat.sub_eq_zero_of_le inside]
    simp
  · rw [List.drop_eq_nil_of_le (Nat.le_trans behind h)]
    simp

/-- To cut behind the last item takes nothing. -/
theorem cut_behind {xs : List α} {p q : Nat} (h : xs.length ≤ p) (h' : p ≤ q) :
    cut xs p q = xs := by
  rw [cut, List.take_of_length_le h, List.drop_eq_nil_of_le (Nat.le_trans h h'), List.append_nil]

/-- To cut an empty range takes nothing. -/
theorem cut_same (xs : List α) (p : Nat) : cut xs p p = xs := List.take_append_drop p xs

/-- What a cut leaves are the items before it and those behind it. -/
theorem length_cut (xs : List α) (p q : Nat) :
    (cut xs p q).length = min p xs.length + (xs.length - q) := by
  rw [cut, List.length_append, List.length_take, List.length_drop]

/-- As many items are lost as lie between the two positions. -/
theorem length_cut_eq_sub (xs : List α) {p q : Nat} (h : p ≤ q) :
    ((cut xs p q).length : Int)
      = xs.length - (min (q : Int) xs.length - min (p : Int) xs.length) := by
  rw [length_cut]
  omega

/-- A position behind the last item counts as the position after it. -/
theorem cut_min (xs : List α) (p q : Nat) : cut xs p (min q xs.length) = cut xs p q := by
  rcases Nat.le_total q xs.length with inside | behind
  · rw [Nat.min_eq_left inside]
  · rw [Nat.min_eq_right behind, cut, cut, List.drop_eq_nil_of_le (Nat.le_refl _),
      List.drop_eq_nil_of_le behind]

/-- A splice in front of some items leaves these at the end. -/
theorem spliceAt_append_left (a b put : List α) {p d : Nat} (h : p + d ≤ a.length) :
    spliceAt (a ++ b) p d put = spliceAt a p d put ++ b := by
  rw [spliceAt, spliceAt, List.take_append_of_le_length (by omega),
    List.drop_append_of_le_length h]
  simp only [List.append_assoc]

/-- A splice behind some items leaves these at the front. -/
theorem spliceAt_append_right (a b put : List α) {p : Nat} (d : Nat) (h : a.length ≤ p) :
    spliceAt (a ++ b) p d put = a ++ spliceAt b (p - a.length) d put := by
  rw [spliceAt, spliceAt, List.take_append, List.drop_append, List.take_of_length_le h,
    List.drop_eq_nil_of_le (by omega)]
  simp only [List.append_assoc, List.nil_append]
  rw [show p + d - a.length = p - a.length + d by omega]

/-- A splice adds what it puts in, less what it takes out. -/
theorem length_spliceAt (xs put : List α) {p d : Nat} (h : p + d ≤ xs.length) :
    (spliceAt xs p d put).length + d = xs.length + put.length := by
  rw [spliceAt, List.length_append, List.length_append, List.length_take, List.length_drop]
  omega

/-! ## Edits that fit -/

namespace Edit

/-- An insertion fits at any item, and behind the last. -/
theorem insert_fits {i : Int} {x : α} {n : Nat} :
    (insert i x).misfit? n = none ↔ 0 ≤ i ∧ i ≤ n := by
  simp [misfit?, insertPosition?]

/-- An insertion of several items fits at any item, and behind the last. -/
theorem insertMany_fits {i : Int} {put : List α} {n : Nat} :
    (insertMany i put).misfit? n = none ↔ 0 ≤ i ∧ i ≤ n := by
  simp [misfit?, insertPosition?]

/-- A deletion fits at any item. -/
theorem delete_fits {i : Int} {n : Nat} :
    (delete i : Edit α).misfit? n = none ↔ 0 ≤ i ∧ i < n := by
  simp [misfit?, itemPosition?]

/-- A replacement fits at any item. -/
theorem set_fits {i : Int} {x : α} {n : Nat} :
    (set i x).misfit? n = none ↔ 0 ≤ i ∧ i < n := by
  simp [misfit?, itemPosition?]

/-- A deletion of several items fits if it takes none, or none but items that are there. -/
theorem deleteMany_fits {i : Int} {count n : Nat} :
    (deleteMany i count : Edit α).misfit? n = none
      ↔ count = 0 ∨ 0 ≤ i ∧ i < n ∧ i + count ≤ n := by
  by_cases none : count = 0
  · simp [misfit?, none]
  · by_cases inside : 0 ≤ i ∧ i < n
    · simp only [misfit?, none, if_false, itemPosition?, inside, and_self, if_true, false_or,
        true_and]
      split
      · simp only [reduceCtorEq, false_iff]
        omega
      · simp only [true_iff]
        omega
    · simp only [misfit?, none, if_false, itemPosition?, inside, reduceCtorEq, false_or,
        false_iff]
      omega

/-- Only a deletion of several items can overrun. -/
theorem eq_deleteMany_of_overrun {e : Edit α} {n count available : Nat} {i : Int}
    (h : e.misfit? n = some (.overrun count available i)) :
    e = deleteMany i count ∧ 0 ≤ i ∧ i < n ∧ n < i + count := by
  cases e with
  | insert j _ | insertMany j _ | delete j | set j _ =>
    simp only [misfit?] at h
    split at h <;> cases h
  | deleteMany j k =>
    simp only [misfit?, itemPosition?] at h
    split at h
    · cases h
    · by_cases inside : 0 ≤ j ∧ j < n
      · simp only [inside, and_self, if_true] at h
        split at h
        · cases h
          exact ⟨rfl, inside.1, inside.2, by omega⟩
        · cases h
      · simp only [inside, if_false] at h
        cases h

/-- An edit that addresses no position changes nothing. -/
theorem splice_of_outOfBounds {e : Edit α} {xs : List α} {i : Int} {n : Nat}
    (h : e.misfit? xs.length = some (.outOfBounds i n)) : e.splice xs = xs := by
  cases e with
  | insert j _ | insertMany j _ =>
    by_cases inside : 0 ≤ j ∧ j ≤ xs.length
    · simp [misfit?, insertPosition?, inside] at h
    · rw [splice, if_neg inside]
  | delete j | set j _ =>
    by_cases inside : 0 ≤ j ∧ j < xs.length
    · simp [misfit?, itemPosition?, inside] at h
    · rw [splice, if_neg inside]
  | deleteMany j k =>
    by_cases inside : 0 ≤ j ∧ j < xs.length
    · simp only [misfit?, itemPosition?, inside, and_self, if_true] at h
      split at h
      · cases h
      · split at h <;> cases h
    · rw [splice, if_neg inside]

/-- To delete nothing changes nothing, wherever it is said to be. -/
theorem splice_deleteMany_zero (i : Int) (xs : List α) :
    (deleteMany i 0).splice xs = xs := by
  unfold splice
  dsimp only
  split
  · rw [spliceAt_nil, Nat.add_zero, cut_same]
  · rfl

/-! ## Batches -/

/-- Every edit of a batch fits the items as they are when it is reached. -/
def AllFit (xs : List α) : List (Edit α) → Prop
  | [] => True
  | e :: edits => e.misfit? xs.length = none ∧ AllFit (e.splice xs) edits

/-- The edits of a batch that fit the items as they are when they are reached. -/
def survivors (xs : List α) : List (Edit α) → List (Edit α)
  | [] => []
  | e :: edits =>
    if e.misfit? xs.length = none then e :: survivors (e.splice xs) edits
    else survivors (e.splice xs) edits

/-- What is left of a batch comes from it, and each edit fits some number of items. -/
theorem mem_survivors {xs : List α} {edits : List (Edit α)} {e : Edit α}
    (h : e ∈ survivors xs edits) : e ∈ edits ∧ ∃ n, e.misfit? n = none := by
  induction edits generalizing xs with
  | nil => cases h
  | cons first edits ih =>
    have later (h : e ∈ survivors (first.splice xs) edits) :
        e ∈ first :: edits ∧ ∃ n, e.misfit? n = none :=
      ⟨List.mem_cons_of_mem _ (ih h).1, (ih h).2⟩
    rw [survivors] at h
    split at h
    · rename_i fits
      rcases List.mem_cons.1 h with rfl | h
      · exact ⟨List.mem_cons_self, _, fits⟩
      · exact later h
    · exact later h

/-- The warnings for a batch whose first edit has the given place. -/
def warningsFrom (xs : List α) (place : Nat) : List (Edit α) → List Warning
  | [] => []
  | e :: edits =>
    ((e.misfit? xs.length).map (Warning.ofMisfit place e)).toList
      ++ warningsFrom (e.splice xs) (place + 1) edits

/-- The warnings of a batch stand behind those before, each found on the items at its turn. -/
theorem warnings_foldl_step (edits : List (Edit α)) (place : Nat) (s : Progress α) :
    ((edits.zipIdx place).foldl Progress.step s).warnings
      = s.warnings ++ warningsFrom (s.slots.map (·.item)) place edits := by
  induction edits generalizing place s with
  | nil => exact (List.append_nil _).symm
  | cons e edits ih =>
    have items : (s.step (e, place)).slots.map (·.item) = e.splice (s.slots.map (·.item)) :=
      items_onSlots e s.slots
    rw [List.zipIdx_cons, List.foldl_cons, ih, items, warningsFrom, List.length_map,
      ← List.append_assoc]
    rfl

/-- The warnings of a batch name the edits that do not fit when they are reached. -/
theorem applyEdits_warnings (items : List α) (edits : List (Edit α)) :
    (applyEdits items edits).2.warnings = warningsFrom items 0 edits := by
  have run := warnings_foldl_step edits 0 ⟨Slot.ofItems items, []⟩
  rw [items_ofItems, List.nil_append] at run
  exact run

/-- A warning names a place at or after the first edit that is looked at. -/
theorem le_place_of_mem {xs : List α} {place : Nat} {edits : List (Edit α)} {w : Warning}
    (h : w ∈ warningsFrom xs place edits) : place ≤ w.place := by
  induction edits generalizing xs place with
  | nil => cases h
  | cons e edits ih =>
    rcases List.mem_append.1 h with here | later
    · obtain ⟨misfit, -, rfl⟩ := Option.map_eq_some_iff.1 (Option.mem_toList.1 here)
      exact Nat.le_refl _
    · exact Nat.le_of_succ_le (ih later)

/-- A batch that fits throughout has no warnings. -/
theorem warnings_of_fitting {xs : List α} {edits : List (Edit α)} (h : AllFit xs edits)
    (place : Nat) : warningsFrom xs place edits = [] := by
  induction edits generalizing xs place with
  | nil => rfl
  | cons e edits ih =>
    rw [warningsFrom, h.1, ih h.2]
    rfl

/-- Only a batch that fits throughout has no warnings. -/
theorem fitting_of_warnings {xs : List α} {edits : List (Edit α)} {place : Nat}
    (h : warningsFrom xs place edits = []) : AllFit xs edits := by
  induction edits generalizing xs place with
  | nil => trivial
  | cons e edits ih =>
    obtain ⟨here, later⟩ := List.append_eq_nil_iff.1 h
    refine ⟨?_, ih later⟩
    simpa using here

/-- To leave out the edits that the warnings name leaves those that fit. -/
theorem survivors_of_warnings (xs : List α) (place : Nat) (edits : List (Edit α)) :
    ((edits.zipIdx place).filter fun e =>
      !((warningsFrom xs place edits).map (·.place)).contains e.2).map (·.1)
      = survivors xs edits := by
  induction edits generalizing xs place with
  | nil => rfl
  | cons e edits ih =>
    -- the warning for the first edit, if there is one, names none of the later places
    have later : ((edits.zipIdx (place + 1)).filter fun d =>
        !((warningsFrom xs place (e :: edits)).map (·.place)).contains d.2)
        = (edits.zipIdx (place + 1)).filter fun d =>
          !((warningsFrom (e.splice xs) (place + 1) edits).map (·.place)).contains d.2 := by
      refine List.filter_congr ?_
      intro d hd
      have behind : place + 1 ≤ d.2 := List.le_snd_of_mem_zipIdx hd
      have apart : ¬d.2 = place := by omega
      cases hm : e.misfit? xs.length with
      | none => simp [warningsFrom, hm]
      | some misfit => simp [warningsFrom, hm, Warning.ofMisfit, apart]
    -- and the later warnings do not name its place
    have here : ((warningsFrom xs place (e :: edits)).map (·.place)).contains place
        = (e.misfit? xs.length).isSome := by
      have rest : place ∉ (warningsFrom (e.splice xs) (place + 1) edits).map (·.place) := by
        intro h
        obtain ⟨w, hw, same⟩ := List.mem_map.1 h
        have := le_place_of_mem hw
        omega
      cases hm : e.misfit? xs.length with
      | none => simpa [warningsFrom, hm] using rest
      | some misfit => simp [warningsFrom, hm, Warning.ofMisfit]
    rw [List.zipIdx_cons, List.filter_cons, here, later, survivors]
    cases e.misfit? xs.length with
    | none => simp [← ih (e.splice xs) (place + 1)]
    | some misfit => simp [← ih (e.splice xs) (place + 1)]

/-! ## Edits of items between others -/

/-- An edit once `k` more items come before those that it addresses. -/
def behind (k : Nat) : Edit α → Edit α
  | insert i x => insert (i + k) x
  | insertMany i xs => insertMany (i + k) xs
  | delete i => delete (i + k)
  | deleteMany i count => deleteMany (i + k) count
  | set i x => set (i + k) x

/-- Behind no items, edits address what they addressed. -/
theorem map_behind_zero (edits : List (Edit α)) : edits.map (behind 0) = edits := by
  have same (e : Edit α) : e.behind 0 = id e := by cases e <;> simp [behind]
  rw [List.map_congr_left fun e _ => same e, List.map_id]

/-- An edit that fits some items still fits them between others, once it is moved behind those in
front. -/
theorem misfit?_behind {xs : List α} {e : Edit α} (fits : e.misfit? xs.length = none)
    (front back : List α) :
    (e.behind front.length).misfit? (front ++ xs ++ back).length = none := by
  rw [List.length_append, List.length_append]
  cases e with
  | insert i x =>
    rw [insert_fits] at fits
    rw [behind, insert_fits]
    omega
  | insertMany i put =>
    rw [insertMany_fits] at fits
    rw [behind, insertMany_fits]
    omega
  | delete i =>
    rw [delete_fits] at fits
    rw [behind, delete_fits]
    omega
  | deleteMany i count =>
    rw [deleteMany_fits] at fits
    rw [behind, deleteMany_fits]
    omega
  | set i x =>
    rw [set_fits] at fits
    rw [behind, set_fits]
    omega

/-- A splice of items between others leaves those others around it. -/
theorem spliceAt_between (front xs back put : List α) {i : Int} {d : Nat} (low : 0 ≤ i)
    (fits : i + d ≤ xs.length) :
    spliceAt (front ++ xs ++ back) (i + front.length).toNat d put
      = front ++ spliceAt xs i.toNat d put ++ back := by
  have place : (i + front.length).toNat = front.length + i.toNat := by omega
  rw [spliceAt_append_left _ _ _ (by rw [List.length_append]; omega),
    spliceAt_append_right _ _ _ d (by omega), place, Nat.add_sub_cancel_left]

/-- An edit that fits leaves what comes before and behind the items. -/
theorem splice_behind {xs : List α} {e : Edit α} (fits : e.misfit? xs.length = none)
    (front back : List α) :
    (e.behind front.length).splice (front ++ xs ++ back) = front ++ e.splice xs ++ back := by
  have length : (front ++ xs ++ back).length = front.length + xs.length + back.length := by
    rw [List.length_append, List.length_append]
  cases e with
  | insert i x =>
    rw [insert_fits] at fits
    rw [behind, splice, splice, if_pos (by omega), if_pos fits,
      spliceAt_between _ _ _ _ fits.1 (by omega)]
  | insertMany i put =>
    rw [insertMany_fits] at fits
    rw [behind, splice, splice, if_pos (by omega), if_pos fits,
      spliceAt_between _ _ _ _ fits.1 (by omega)]
  | delete i =>
    rw [delete_fits] at fits
    rw [behind, splice, splice, if_pos (by omega), if_pos fits,
      spliceAt_between _ _ _ _ fits.1 (by omega)]
  | deleteMany i count =>
    rw [deleteMany_fits] at fits
    -- a deletion of nothing fits anywhere, and its position need not lie among the items
    rcases fits with rfl | ⟨low, inside, room⟩
    · rw [behind, splice_deleteMany_zero, splice_deleteMany_zero]
    · rw [behind, splice, splice, if_pos (by omega), if_pos ⟨low, inside⟩,
        spliceAt_between _ _ _ _ low (by omega)]
  | set i x =>
    rw [set_fits] at fits
    rw [behind, splice, splice, if_pos (by omega), if_pos fits,
      spliceAt_between _ _ _ _ fits.1 (by omega)]

/-- Edits that fit leave what comes before and behind the items, and still fit. -/
theorem spliceAll_behind {xs : List α} {edits : List (Edit α)} (fits : AllFit xs edits)
    (front back : List α) :
    AllFit (front ++ xs ++ back) (edits.map (behind front.length))
      ∧ spliceAll (edits.map (behind front.length)) (front ++ xs ++ back)
        = front ++ spliceAll edits xs ++ back := by
  induction edits generalizing xs with
  | nil => exact ⟨trivial, rfl⟩
  | cons e edits ih =>
    have here := splice_behind fits.1 front back
    obtain ⟨later, items⟩ := ih fits.2
    rw [List.map_cons, spliceAll_cons, spliceAll_cons, here]
    exact ⟨⟨misfit?_behind fits.1 front back, here.symm ▸ later⟩, items⟩

end Edit

end ListSync
