/-!
# Tables

A finite map as a list of entries in which no key occurs twice. `get?_insert`, `get?_erase`,
`get?_modify`, `get?_adjust` and `get?_filterMap` say what each change does to every look-up.
-/

namespace ListSync

/-- A finite map from keys to values. -/
structure Table (κ ν : Type) where
  entries : List (κ × ν) := []
  distinct : (entries.map (·.1)).Nodup := by exact List.nodup_nil

namespace Table

variable {κ ν : Type} [DecidableEq κ]

instance : Inhabited (Table κ ν) := ⟨{}⟩

/-- The value of a key. -/
def get? (t : Table κ ν) (k : κ) : Option ν := (t.entries.find? (·.1 = k)).map (·.2)

/-- Whether a key has a value. -/
def contains (t : Table κ ν) (k : κ) : Bool := (t.get? k).isSome

/-- The number of keys. -/
def size (t : Table κ ν) : Nat := t.entries.length

/-- The values of all keys. -/
def values (t : Table κ ν) : List ν := t.entries.map (·.2)

/-- Take a key out. -/
def erase (t : Table κ ν) (k : κ) : Table κ ν where
  entries := t.entries.filter (·.1 ≠ k)
  distinct := t.distinct.sublist (List.filter_sublist.map _)

/-- Give a key a value, in place of any earlier one. -/
def insert (t : Table κ ν) (k : κ) (v : ν) : Table κ ν where
  entries := (k, v) :: (t.erase k).entries
  distinct := by
    simp only [List.map_cons, List.nodup_cons]
    exact ⟨by simp [erase], (t.erase k).distinct⟩

/-- Change the value of a key, if it has one. -/
def modify (t : Table κ ν) (k : κ) (f : ν → ν) : Table κ ν where
  entries := t.entries.map fun e => if e.1 = k then (e.1, f e.2) else e
  distinct := by
    have keys : (t.entries.map fun e => if e.1 = k then (e.1, f e.2) else e).map (·.1)
        = t.entries.map (·.1) := by
      simp only [List.map_map]
      exact List.map_congr_left fun e _ => by
        simp only [Function.comp]
        split <;> rfl
    rw [keys]
    exact t.distinct

/-- Change the value of a key, or take the key out. -/
def adjust (t : Table κ ν) (k : κ) (f : ν → Option ν) : Table κ ν :=
  match (t.get? k).bind f with
  | some v => t.insert k v
  | none => t.erase k

/-- Change the value of each key, or take the key out. -/
def filterMap (t : Table κ ν) (f : ν → Option ν) : Table κ ν where
  entries := t.entries.filterMap fun e => (f e.2).map (e.1, ·)
  distinct := by
    refine t.distinct.sublist ?_
    induction t.entries with
    | nil => exact .refl _
    | cons e es ih =>
      cases h : f e.2 <;> simp [h, ih]

/-! ## Look-ups -/

/-- A key has one value. -/
theorem get?_eq_some_iff (t : Table κ ν) {k : κ} {v : ν} :
    t.get? k = some v ↔ (k, v) ∈ t.entries := by
  obtain ⟨entries, distinct⟩ := t
  simp only [get?]
  induction entries with
  | nil => simp
  | cons e entries ih =>
    obtain ⟨fresh, distinct⟩ := List.nodup_cons.1 distinct
    by_cases h : e.1 = k
    · -- no later entry has this key
      subst h
      have other : (e.1, v) ∉ entries :=
        fun later => fresh (List.mem_map.2 ⟨(e.1, v), later, rfl⟩)
      simp [other, Prod.ext_iff, eq_comm]
    · have apart : (k, v) ≠ e := fun same => h (same ▸ rfl)
      rw [List.find?_cons_of_neg (by simpa using h), ih distinct, List.mem_cons,
        or_iff_right apart]

/-! ## Look-ups after a change -/

/-- No key has a value in an empty table. -/
@[simp]
theorem get?_empty (k : κ) : (({} : Table κ ν)).get? k = none := rfl

/-- Entries without a key are found under the other keys only. -/
theorem find?_filter_ne (es : List (κ × ν)) (k k' : κ) :
    (es.filter (·.1 ≠ k)).find? (·.1 = k') = if k' = k then none else es.find? (·.1 = k') := by
  induction es with
  | nil => simp
  | cons e es ih => by_cases h : e.1 = k <;> by_cases h' : e.1 = k' <;> grind

/-- A key that is taken out has no value, and all others have theirs. -/
theorem get?_erase (t : Table κ ν) (k k' : κ) :
    (t.erase k).get? k' = if k' = k then none else t.get? k' := by
  simp only [get?, erase, find?_filter_ne]
  split <;> rfl

/-- A key that is given a value has it, and all others have theirs. -/
theorem get?_insert (t : Table κ ν) (k k' : κ) (v : ν) :
    (t.insert k v).get? k' = if k' = k then some v else t.get? k' := by
  have below := get?_erase t k k'
  simp only [get?, insert, List.find?_cons] at *
  by_cases h : k' = k
  · simp [h]
  · have : ¬k = k' := fun e => h e.symm
    simp_all

/-- A change under a key changes the value of that key only. -/
theorem get?_modify (t : Table κ ν) (k k' : κ) (f : ν → ν) :
    (t.modify k f).get? k' = if k' = k then (t.get? k').map f else t.get? k' := by
  simp only [get?, modify]
  induction t.entries with
  | nil => simp
  | cons e es ih => by_cases h : e.1 = k <;> by_cases h' : e.1 = k' <;> grind

/-- A change under a key takes no key out, and puts none in. -/
@[simp]
theorem contains_modify (t : Table κ ν) (k k' : κ) (f : ν → ν) :
    (t.modify k f).contains k' = t.contains k' := by
  rw [contains, get?_modify]
  split
  · rename_i own
    rw [Option.isSome_map, own, contains]
  · rfl

/-- The keys after an insertion are the one that is given and those before. -/
theorem contains_insert (t : Table κ ν) (k k' : κ) (v : ν) :
    (t.insert k v).contains k' ↔ k' = k ∨ t.contains k' := by
  rw [contains, get?_insert]
  split <;> simp_all [contains]

/-- The keys after one is taken out are those before, without it. -/
theorem contains_erase (t : Table κ ν) (k k' : κ) :
    (t.erase k).contains k' ↔ k' ≠ k ∧ t.contains k' := by
  rw [contains, get?_erase]
  split <;> simp_all [contains]

/-- A change under a key that may take it out leaves all other keys. -/
theorem get?_adjust (t : Table κ ν) (k k' : κ) (f : ν → Option ν) :
    (t.adjust k f).get? k' = if k' = k then (t.get? k).bind f else t.get? k' := by
  unfold adjust
  cases h : (t.get? k).bind f with
  | none => exact get?_erase t k k'
  | some v => exact get?_insert t k k' v

/-- A change under every key that may take it out changes each value on its own. -/
theorem get?_filterMap (t : Table κ ν) (f : ν → Option ν) (k : κ) :
    (t.filterMap f).get? k = (t.get? k).bind f := by
  refine Option.ext fun u => ?_
  rw [get?_eq_some_iff, Option.bind_eq_some_iff]
  simp only [filterMap, List.mem_filterMap, Option.map_eq_some_iff, get?_eq_some_iff]
  constructor
  · rintro ⟨e, entered, u', kept, same⟩
    obtain ⟨rfl, rfl⟩ := Prod.mk.inj same
    exact ⟨e.2, entered, kept⟩
  · rintro ⟨v, entered, kept⟩
    exact ⟨(k, v), entered, u, kept, rfl⟩

end Table

end ListSync
