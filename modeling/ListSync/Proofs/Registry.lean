import ListSync.Registry

/-!
# Names and handles of a registry agree

In a sound registry the names and the slots that hold a list belong together one to one: the handle
of a name leads to a list of that name, and the list in a slot is found under its own name. Every
move keeps this. It is what makes a change to one list leave the look-ups of all others alone
(`find?_modify`, `find?_insert`).
-/

namespace ListSync.Registry

/-- Names and slots that hold a list belong together one to one. -/
structure Sound (r : Registry) : Prop where
  named : ∀ {listId handle}, r.handle? listId = some handle →
    ∃ l, r.get? handle = some l ∧ l.id = listId
  held : ∀ {handle l}, r.get? handle = some l → r.handle? l.id = some handle

variable {r : Registry}

/-! ## Look-ups -/

/-- A list is found under a name exactly when it sits in the slot of that name. -/
theorem find?_eq_some_iff {listId : ListId} {l : LoadedList} :
    r.find? listId = some l
      ↔ ∃ handle, r.handle? listId = some handle ∧ r.get? handle = some l := by
  simp [find?, Option.bind_eq_some_iff]

/-- A handle belongs to one name. -/
theorem Sound.eq_of_handle? (sound : r.Sound) {listId other : ListId} {handle : Handle}
    (h : r.handle? listId = some handle) (h' : r.handle? other = some handle) : listId = other := by
  obtain ⟨l, hl, hid⟩ := sound.named h
  obtain ⟨l', hl', hid'⟩ := sound.named h'
  rw [hl] at hl'
  cases hl'
  exact hid.symm.trans hid'

/-- Names and slots belong together in an empty registry. -/
theorem sound_empty : ({} : Registry).Sound where
  named h := by cases h
  held h := by simp [get?] at h

/-! ## Changing a list -/

/-- A change of a list keeps the handles of all names. -/
@[simp]
theorem handle?_modifyAt (r : Registry) (handle : Handle) (f : LoadedList → LoadedList)
    (listId : ListId) : (r.modifyAt handle f).handle? listId = r.handle? listId := rfl

/-- Only the list of the handle is changed. -/
theorem get?_modifyAt (r : Registry) (handle handle' : Handle) (f : LoadedList → LoadedList) :
    (r.modifyAt handle f).get? handle' =
      if handle' = handle then (r.get? handle').map f else r.get? handle' := by
  simp only [modifyAt, get?, List.getElem?_modify]
  by_cases h : handle' = handle
  · subst h
    cases r.slots[handle']? with
    | none => simp
    | some slot => cases slot <;> simp
  · have h' : ¬ handle = handle' := fun e => h e.symm
    simp [h, h']

/-- A change of a name that has no handle changes nothing. -/
theorem modify_of_none {listId : ListId} (h : r.handle? listId = none)
    (f : LoadedList → LoadedList) : r.modify listId f = r := by
  simp [modify, h]

/-- A change under a name is one under its handle. -/
theorem modify_of_some {listId : ListId} {handle : Handle} (h : r.handle? listId = some handle)
    (f : LoadedList → LoadedList) : r.modify listId f = r.modifyAt handle f := by
  simp [modify, h]

/-- A change under a name keeps the handles of all names. -/
@[simp]
theorem handle?_modify (r : Registry) (listId other : ListId) (f : LoadedList → LoadedList) :
    (r.modify listId f).handle? other = r.handle? other := by
  unfold modify
  split <;> rfl

/-- The changed list is found changed, whatever the registry. -/
theorem find?_modify_self (r : Registry) (listId : ListId) (f : LoadedList → LoadedList) :
    (r.modify listId f).find? listId = (r.find? listId).map f := by
  cases h : r.handle? listId with
  | none => simp [modify_of_none h, find?, h]
  | some handle => simp [modify_of_some h, find?, h, get?_modifyAt]

/-- A change to one list leaves what is found under all other names. -/
theorem Sound.find?_modify (sound : r.Sound) (listId other : ListId)
    (f : LoadedList → LoadedList) :
    (r.modify listId f).find? other =
      if other = listId then (r.find? other).map f else r.find? other := by
  by_cases h : other = listId
  · subst h
    rw [if_pos rfl, find?_modify_self]
  · rw [if_neg h]
    cases hh : r.handle? listId with
    | none => rw [modify_of_none hh]
    | some handle =>
      rw [modify_of_some hh]
      cases ho : r.handle? other with
      | none => simp [find?, ho]
      | some handle' =>
        have apart : handle' ≠ handle := by
          rintro rfl
          exact h (sound.eq_of_handle? ho hh)
        simp [find?, ho, get?_modifyAt, apart]

/-- A change that keeps the name of the list in a slot keeps the registry sound. -/
theorem Sound.modifyAt (sound : r.Sound) {handle : Handle} {f : LoadedList → LoadedList}
    (keeps : ∀ l, r.get? handle = some l → (f l).id = l.id) : (r.modifyAt handle f).Sound := by
  constructor
  · intro name handle' hn
    obtain ⟨l, hl, hid⟩ := sound.named hn
    by_cases he : handle' = handle
    · subst he
      exact ⟨f l, by simp [get?_modifyAt, hl], (keeps l hl).trans hid⟩
    · exact ⟨l, by simp [get?_modifyAt, he, hl], hid⟩
  · intro handle' l' hl'
    rw [get?_modifyAt] at hl'
    split at hl'
    · rename_i he
      subst he
      obtain ⟨l, hl, rfl⟩ := Option.map_eq_some_iff.1 hl'
      rw [handle?_modifyAt, keeps l hl]
      exact sound.held hl
    · exact sound.held hl'

/-- A change that keeps the name of the list with a name keeps the registry sound. -/
theorem Sound.modify (sound : r.Sound) {listId : ListId} {f : LoadedList → LoadedList}
    (keeps : ∀ l, r.find? listId = some l → (f l).id = l.id) : (r.modify listId f).Sound := by
  cases hh : r.handle? listId with
  | none => rwa [modify_of_none hh]
  | some handle =>
    rw [modify_of_some hh]
    exact sound.modifyAt fun l hl => keeps l (find?_eq_some_iff.2 ⟨handle, hh, hl⟩)

/-! ## Windows left out -/

/-- A registry apart from the windows of its lists. -/
def bare (r : Registry) : Registry :=
  { r with slots := r.slots.map (Option.map fun l => { l with window := default }) }

/-- Without windows, a name finds its list without the window. -/
theorem find?_bare (r : Registry) (listId : ListId) :
    r.bare.find? listId = (r.find? listId).map fun l => { l with window := default } := by
  simp only [find?, show r.bare.handle? listId = r.handle? listId from rfl]
  cases r.handle? listId with
  | none => rfl
  | some handle =>
    simp only [Option.bind_some, get?, bare, List.getElem?_map]
    cases r.slots[handle]? <;> rfl

/-- Another window makes no difference. -/
theorem bare_modify (r : Registry) (listId : ListId) (window : Window) :
    (r.modify listId fun l => { l with window }).bare = r.bare := by
  cases h : r.handle? listId with
  | none => rw [modify_of_none h]
  | some handle =>
    rw [modify_of_some h]
    simp only [bare, modifyAt, mk.injEq, and_true]
    refine List.ext_getElem? ?_
    intro i
    simp only [List.getElem?_map, List.getElem?_modify]
    cases r.slots[i]? with
    | none => rfl
    | some slot => by_cases here : handle = i <;> cases slot <;> simp [here]

/-! ## Taking lists out and in -/

/-- A handle finds nothing once its list is taken out, and other handles find what they did. -/
theorem get?_remove {listId : ListId} {handle : Handle} (h : r.handle? listId = some handle)
    (handle' : Handle) :
    (r.remove listId).1.get? handle' = if handle' = handle then none else r.get? handle' := by
  simp only [remove, h, get?, List.getElem?_set]
  by_cases he : handle' = handle
  · subst he
    by_cases hlt : handle' < r.slots.length <;> simp [hlt]
  · have he' : ¬ handle = handle' := fun e => he e.symm
    simp [he, he']

/-- A name has no handle once its list is taken out, and other names have theirs. -/
theorem handle?_remove (r : Registry) (listId other : ListId) :
    (r.remove listId).1.handle? other = if other = listId then none else r.handle? other := by
  unfold remove
  split
  · rename_i h
    split
    · rename_i e
      rw [e, h]
    · rfl
  · simp [handle?, Table.get?_erase]

/-- Names and slots belong together once a list is taken out. -/
theorem Sound.remove (sound : r.Sound) (listId : ListId) : (r.remove listId).1.Sound := by
  cases hh : r.handle? listId with
  | none => simpa [Registry.remove, hh] using sound
  | some handle =>
    constructor
    · intro name handle' hn
      rw [handle?_remove] at hn
      split at hn
      · cases hn
      · rename_i hne
        obtain ⟨l, hl, hid⟩ := sound.named hn
        -- two names never share a handle
        have apart : handle' ≠ handle := by
          rintro rfl
          exact hne (sound.eq_of_handle? hn hh)
        exact ⟨l, by rw [get?_remove hh, if_neg apart, hl], hid⟩
    · intro handle' l hl
      rw [get?_remove hh] at hl
      split at hl
      · cases hl
      · rename_i apart
        have back := sound.held hl
        rw [handle?_remove, if_neg, back]
        intro e
        rw [e, hh] at back
        exact apart (Option.some.inj back).symm

/-- What is found after a list was taken out. -/
theorem Sound.find?_remove (sound : r.Sound) (listId other : ListId) :
    (r.remove listId).1.find? other = if other = listId then none else r.find? other := by
  by_cases h : other = listId
  · rw [if_pos h, h]
    exact find?_remove_self r listId
  · rw [if_neg h]
    cases hh : r.handle? listId with
    | none => simp [Registry.remove, hh]
    | some handle =>
      cases ho : r.handle? other with
      | none => simp [find?, handle?_remove, ho]
      | some handle' =>
        obtain ⟨l, hl, hid⟩ := (sound.remove listId).named
          (show (r.remove listId).1.handle? other = some handle' by
            rw [handle?_remove, if_neg h, ho])
        have before : r.get? handle' = some l := by
          rw [get?_remove hh] at hl
          split at hl
          · cases hl
          · exact hl
        simp [find?, handle?_remove, h, ho, hl, before]

/-- A registered name has the new handle, and other names have theirs. -/
theorem handle?_insert (r : Registry) (l : LoadedList) (other : ListId) :
    (r.insert l).1.handle? other =
      if other = l.id then some (r.insert l).2.1 else r.handle? other := by
  simp only [insert, handle?, Table.get?_insert]
  split
  · rfl
  · rename_i h
    have := handle?_remove r l.id other
    rw [if_neg h] at this
    exact this

/-- A list is registered under the first slot that was never used. -/
theorem handle_insert (r : Registry) (l : LoadedList) :
    (r.insert l).2.1 = (r.remove l.id).1.slots.length := rfl

/-- The slot of a new list is one that was never used. -/
theorem get?_insert (r : Registry) (l : LoadedList) (handle : Handle) :
    (r.insert l).1.get? handle =
      if handle = (r.insert l).2.1 then some l else (r.remove l.id).1.get? handle := by
  rw [handle_insert]
  show ((r.remove l.id).1.slots ++ [some l])[handle]?.join = _
  rw [List.getElem?_append]
  -- an old slot, the new one, or none
  rcases Nat.lt_trichotomy handle (r.remove l.id).1.slots.length with before | here | behind
  · rw [if_pos before, if_neg (Nat.ne_of_lt before)]
    rfl
  · rw [if_neg (by omega), if_pos here, here]
    simp
  · have past : (r.remove l.id).1.slots[handle]? = none :=
      List.getElem?_eq_none (Nat.le_of_lt behind)
    have beyond : [some l][handle - (r.remove l.id).1.slots.length]? = none :=
      List.getElem?_eq_none (Nat.sub_pos_of_lt behind)
    rw [if_neg (Nat.lt_asymm behind), if_neg (Nat.ne_of_gt behind), beyond, get?, past]

/-- No list that is left has the handle of the new one. -/
theorem ne_of_get?_remove {l l' : LoadedList} {handle : Handle}
    (h : (r.remove l.id).1.get? handle = some l') : handle ≠ (r.insert l).2.1 := by
  rintro rfl
  simp [get?, insert] at h

/-- What is replaced is what was found under the name. -/
theorem replaced_insert (r : Registry) (l : LoadedList) : (r.insert l).2.2 = r.find? l.id := by
  simp only [insert, remove, find?]
  cases r.handle? l.id <;> rfl

/-- A registered name finds its list, and other names find what they did. -/
theorem Sound.find?_insert (sound : r.Sound) (l : LoadedList) (other : ListId) :
    (r.insert l).1.find? other = if other = l.id then some l else r.find? other := by
  by_cases h : other = l.id
  · rw [if_pos h, h]
    exact find?_insert_self r l
  · rw [if_neg h]
    have rest := sound.find?_remove l.id other
    rw [if_neg h] at rest
    rw [← rest]
    simp only [find?, handle?_insert, if_neg h, handle?_remove]
    cases ho : r.handle? other with
    | none => rfl
    | some handle' =>
      obtain ⟨l', hl', -⟩ := (sound.remove l.id).named
        (show (r.remove l.id).1.handle? other = some handle' by rw [handle?_remove, if_neg h, ho])
      simp [get?_insert, ne_of_get?_remove hl']

/-- Names and slots belong together once a list is registered. -/
theorem Sound.insert (sound : r.Sound) (l : LoadedList) : (r.insert l).1.Sound := by
  -- whatever was registered under the name is taken out first
  have rest := sound.remove l.id
  constructor
  · intro name handle hn
    rw [handle?_insert] at hn
    split at hn
    · rename_i e
      cases hn
      exact ⟨l, by simp [get?_insert], e.symm⟩
    · rename_i hne
      obtain ⟨l', hl', hid⟩ := rest.named
        (show (r.remove l.id).1.handle? name = some handle by rw [handle?_remove, if_neg hne, hn])
      exact ⟨l', by rw [get?_insert, if_neg (ne_of_get?_remove hl'), hl'], hid⟩
  · intro handle l' hl'
    rw [get?_insert] at hl'
    split at hl'
    · rename_i e
      cases hl'
      rw [handle?_insert, if_pos rfl, e]
    · have back := rest.held hl'
      rw [handle?_remove] at back
      split at back
      · cases back
      · rename_i hne
        rw [handle?_insert, if_neg hne, back]

/-- No handle finds a list in a cleared registry. -/
theorem get?_clear (r : Registry) (handle : Handle) : r.clear.get? handle = none := by
  simp only [clear, get?, List.getElem?_map]
  cases r.slots[handle]? <;> rfl

/-- Names and slots belong together in a cleared registry. -/
theorem sound_clear (r : Registry) : r.clear.Sound where
  named h := by cases h
  held h := by
    rw [get?_clear] at h
    cases h

end ListSync.Registry
