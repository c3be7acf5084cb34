import ListSync.Proofs.Registry
import ListSync.Proofs.Trace
import Mathlib.Data.List.Nodup
import Mathlib.Data.List.Perm.Lattice

/-!
# Handles of a registry never alias

Along any run on an empty registry with fewer registrations than there are handles of 32 bits
(`handles_never_alias`), names, handles and the enumeration of a registry tell the same lists, each
registration gives a handle that was not given before, and a handle whose list was replaced or taken
out finds nothing for the rest of the run.

Two things carry this. Slots are only ever added at the end, one for each registration
(`length_run`), so the handles given are the numbers of a range (`given_eq`) and a slot that is
empty stays empty (`get?_run_of_gone`). And every move keeps a registry sound (`Sound.step`), so the
list that a move ends is the one in the slot of its name (`get?_step_of_ends`).
-/

namespace ListSync.Registry

variable {r : Registry} {handle : Handle} {l : LoadedList}

/-! ## Moves -/

/-- What can be done to a registry. A change of a list keeps its name. -/
inductive Move
  | insert (l : LoadedList)
  | remove (listId : ListId)
  | clear
  | change (handle : Handle) (f : LoadedList → LoadedList) (keeps : ∀ l, (f l).id = l.id)
  | changeNamed (listId : ListId) (f : LoadedList → LoadedList) (keeps : ∀ l, (f l).id = l.id)

/-- Whether a move registers a list. -/
def Move.inserts : Move → Bool
  | .insert _ => true
  | _ => false

/-- Whether a move replaces a registered list or takes it out. -/
def Move.Ends (l : LoadedList) : Move → Prop
  | .insert l' => l'.id = l.id
  | .remove listId => listId = l.id
  | .clear => True
  | .change .. | .changeNamed .. => False

/-- The registry after a move. -/
def step (r : Registry) : Move → Registry
  | .insert l => (r.insertNarrow l).1
  | .remove listId => (r.remove listId).1
  | .clear => r.clear
  | .change handle f _ => r.modifyAt handle f
  | .changeNamed listId f _ => r.modify listId f

/-- The registry after a run. -/
def run (r : Registry) (moves : List Move) : Registry := moves.foldl step r

/-- The handle that a move gives, if it registers a list. -/
def gives (r : Registry) : Move → List Handle
  | .insert l => [(r.insertNarrow l).2.1]
  | _ => []

/-- The handles given in a run, in order. -/
def given (r : Registry) (moves : List Move) : List Handle := Trace.gather step gives r moves

/-- The number of registrations of a run. -/
def insertions (moves : List Move) : Nat := moves.countP Move.inserts

/-- A run registers as many lists as its first move and the rest of it do. -/
theorem insertions_cons (m : Move) (moves : List Move) :
    insertions (m :: moves) = insertions [m] + insertions moves := by
  simp only [insertions, List.countP_cons, List.countP_nil]
  omega

/-! ## Slots -/

/-- A slot stays when its list is taken out. -/
@[simp]
theorem length_remove (r : Registry) (listId : ListId) :
    (r.remove listId).1.slots.length = r.slots.length := by
  unfold remove
  split <;> simp

/-- Each registration takes one more slot, and nothing else changes their number. -/
theorem length_step (r : Registry) (m : Move) :
    (r.step m).slots.length = r.slots.length + insertions [m] := by
  cases m with
  | insert l => simp [step, insertNarrow, insertions, Move.inserts]
  | remove listId => simp [step, insertions, Move.inserts]
  | clear => simp [step, clear, insertions, Move.inserts]
  | change handle f keeps => simp [step, modifyAt, insertions, Move.inserts]
  | changeNamed listId f keeps =>
    simp only [step, modify, insertions, List.countP_singleton, Move.inserts]
    split <;> simp [modifyAt]

/-- A run adds a slot for each registration, and takes none away. -/
theorem length_run (r : Registry) (moves : List Move) :
    (r.run moves).slots.length = r.slots.length + insertions moves := by
  induction moves generalizing r with
  | nil => rfl
  | cons m moves ih =>
    rw [insertions_cons, ← Nat.add_assoc, ← length_step]
    exact ih (r.step m)

/-- Where a run fits, its first move does. -/
theorem room_of_cons {m : Move} {moves : List Move}
    (room : (r.run (m :: moves)).slots.length ≤ handleCount) :
    (r.step m).slots.length ≤ handleCount := by
  have whole : (r.run (m :: moves)).slots.length = (r.step m).slots.length + insertions moves :=
    length_run (r.step m) moves
  omega

/-- A handle that finds a list names a slot. -/
theorem lt_of_get? (live : r.get? handle = some l) : handle < r.slots.length := by
  by_contra past
  simp [get?, List.getElem?_eq_none (Nat.le_of_not_lt past)] at live

/-! ## Handles of 32 bits are slots, as long as there are enough -/

/-- While there is room, a list has the same handle in 32 bits. -/
theorem insertNarrow_eq (room : r.slots.length < handleCount) (l : LoadedList) :
    r.insertNarrow l = r.insert l := by
  simp [insertNarrow, insert, narrow, Nat.mod_eq_of_lt room]

/-- While there is room, lists are enumerated under the same handles in 32 bits. -/
theorem toListNarrow_eq (room : r.slots.length ≤ handleCount) : r.toListNarrow = r.toList := by
  refine List.filterMap_congr ?_
  rintro ⟨slot, place⟩ sits
  have early : place < r.slots.length := (List.mem_zipIdx' sits).1
  simp [narrow, Nat.mod_eq_of_lt (Nat.lt_of_lt_of_le early room)]

/-- A registration that leaves room is the one under unbounded handles. -/
theorem step_insert (room : (r.step (.insert l)).slots.length ≤ handleCount) :
    r.step (.insert l) = (r.insert l).1 := by
  rw [length_step] at room
  exact congrArg Prod.fst (insertNarrow_eq room l)

/-! ## The enumeration -/

/-- The enumeration tells each slot that holds a list. -/
theorem mem_toList : (handle, l) ∈ r.toList ↔ r.get? handle = some l := by
  simp only [toList, List.mem_filterMap, Prod.exists, List.mk_mem_zipIdx_iff_getElem?,
    Option.map_eq_some_iff, Prod.mk.injEq, get?, Option.join_eq_some_iff]
  constructor
  · rintro ⟨_, _, sits, _, rfl, rfl, rfl⟩
    exact sits
  · intro sits
    exact ⟨some l, handle, sits, l, rfl, rfl, rfl⟩

/-- The enumeration goes through the slots in order. -/
theorem ascending_toList (r : Registry) : (r.toList.map (·.1)).Pairwise (· < ·) := by
  have places : (r.slots.zipIdx.map Prod.snd).Pairwise (· < ·) := by
    rw [List.zipIdx_map_snd]
    exact List.pairwise_lt_range'
  rw [List.pairwise_map] at places
  rw [List.pairwise_map, toList, List.pairwise_filterMap]
  refine places.imp ?_
  rintro ⟨slot, place⟩ ⟨slot', place'⟩ before entry entered entry' entered'
  obtain ⟨_, _, rfl⟩ := Option.map_eq_some_iff.1 entered
  obtain ⟨_, _, rfl⟩ := Option.map_eq_some_iff.1 entered'
  exact before

/-- In a sound registry there are as many names as lists. -/
theorem Sound.size_eq (sound : r.Sound) : r.size = r.toList.length := by
  have named {listId : ListId} {handle : Handle} :
      (listId, handle) ∈ r.handles.entries ↔ r.handle? listId = some handle :=
    (Table.get?_eq_some_iff r.handles).symm
  have once : (r.handles.entries.map (·.2)).Nodup := by
    refine List.Nodup.map_on ?_ (List.Nodup.of_map _ r.handles.distinct)
    rintro ⟨listId, handle⟩ entered ⟨listId', _⟩ entered' rfl
    rw [sound.eq_of_handle? (named.1 entered) (named.1 entered')]
  have onceListed : (r.toList.map (·.1)).Nodup := (ascending_toList r).imp Nat.ne_of_lt
  have same : (r.handles.entries.map (·.2)).Perm (r.toList.map (·.1)) := by
    refine (List.perm_ext_iff_of_nodup once onceListed).2 fun handle => ?_
    simp only [List.mem_map, Prod.exists, exists_eq_right, named, mem_toList]
    constructor
    · rintro ⟨listId, has⟩
      obtain ⟨l, live, -⟩ := sound.named has
      exact ⟨handle, l, live, rfl⟩
    · rintro ⟨_, l, live, rfl⟩
      exact ⟨l.id, sound.held live⟩
  simpa [size, Table.size] using same.length_eq

/-- Names, handles, the enumeration and the number of lists of a registry agree. -/
structure Agrees (r : Registry) : Prop where
  /-- Names and slots that hold a list belong together one to one. -/
  sound : r.Sound
  /-- A name finds the list of its handle. -/
  found : ∀ {listId l}, r.find? listId = some l ↔
    ∃ handle, r.handle? listId = some handle ∧ r.get? handle = some l
  /-- A list that a handle finds is found under its name, and the handle is that of the name. -/
  back : ∀ {handle l}, r.get? handle = some l ↔
    r.handle? l.id = some handle ∧ r.find? l.id = some l
  /-- What is enumerated is what the handles find. -/
  listed : ∀ {handle l}, (handle, l) ∈ r.toListNarrow ↔ r.get? handle = some l
  /-- Each list is enumerated once. -/
  once : (r.toListNarrow.map (·.1)).Nodup
  /-- The lists that are counted are those that are enumerated. -/
  counted : r.size = r.toListNarrow.length

/-- While there is room, names, handles, enumeration and number of lists agree in a sound registry.
-/
theorem Sound.agrees (sound : r.Sound) (room : r.slots.length ≤ handleCount) : r.Agrees where
  sound := sound
  found := find?_eq_some_iff
  back {handle l} := by
    constructor
    · intro live
      exact ⟨sound.held live, find?_eq_some_iff.2 ⟨handle, sound.held live, live⟩⟩
    · rintro ⟨has, found⟩
      obtain ⟨handle', has', live⟩ := find?_eq_some_iff.1 found
      obtain rfl : handle = handle' := Option.some.inj (has.symm.trans has')
      exact live
  listed := by
    rw [toListNarrow_eq room]
    exact mem_toList
  once := by
    rw [toListNarrow_eq room]
    exact (ascending_toList r).imp Nat.ne_of_lt
  counted := by
    rw [toListNarrow_eq room]
    exact sound.size_eq

/-! ## Moves keep a registry sound -/

/-- A registry stays sound over a move that leaves room. -/
theorem Sound.step {m : Move} (sound : r.Sound) (room : (r.step m).slots.length ≤ handleCount) :
    (r.step m).Sound := by
  cases m with
  | insert l =>
    rw [step_insert room]
    exact sound.insert l
  | remove listId => exact sound.remove listId
  | clear => exact sound_clear r
  | change handle f keeps => exact sound.modifyAt fun l _ => keeps l
  | changeNamed listId f keeps => exact sound.modify fun l _ => keeps l

/-- A registry stays sound over a run that leaves room. -/
theorem Sound.run {moves : List Move} (sound : r.Sound)
    (room : (r.run moves).slots.length ≤ handleCount) : (r.run moves).Sound := by
  induction moves generalizing r with
  | nil => exact sound
  | cons m moves ih => exact ih (sound.step (room_of_cons room)) room

/-! ## What a move does to the list of a handle -/

/-- The handle of a list finds nothing once the list is taken out. -/
theorem Sound.get?_remove_self (sound : r.Sound) (live : r.get? handle = some l) :
    (r.remove l.id).1.get? handle = none := by
  rw [get?_remove (sound.held live), if_pos rfl]

/-- The handle of a list still finds it once another list is taken out. -/
theorem Sound.get?_remove_of_ne (sound : r.Sound) (live : r.get? handle = some l)
    {listId : ListId} (other : listId ≠ l.id) : (r.remove listId).1.get? handle = some l := by
  cases has : r.handle? listId with
  | none => rwa [Registry.remove, has]
  | some handle' =>
    have apart : handle ≠ handle' := by
      rintro rfl
      exact other (sound.eq_of_handle? has (sound.held live))
    rw [get?_remove has, if_neg apart, live]

/-- A registration finds what was left under every handle but its own. -/
theorem get?_insert_of_lt (used : handle < r.slots.length) (l : LoadedList) :
    (r.insert l).1.get? handle = (r.remove l.id).1.get? handle := by
  rw [get?_insert, if_neg]
  rw [handle_insert, length_remove]
  exact Nat.ne_of_lt used

/-- A list that a move ends is not found under its handle any more. -/
theorem get?_step_of_ends {m : Move} (sound : r.Sound)
    (room : (r.step m).slots.length ≤ handleCount) (live : r.get? handle = some l)
    (ends : m.Ends l) : (r.step m).get? handle = none := by
  cases m with
  | insert l' =>
    rw [step_insert room, get?_insert_of_lt (lt_of_get? live), show l'.id = l.id from ends]
    exact sound.get?_remove_self live
  | remove listId =>
    obtain rfl : listId = l.id := ends
    exact sound.get?_remove_self live
  | clear => exact get?_clear r handle
  | change => exact ends.elim
  | changeNamed => exact ends.elim

/-- A list that a move does not end keeps its handle and its name. -/
theorem get?_step_of_not_ends {m : Move} (sound : r.Sound)
    (room : (r.step m).slots.length ≤ handleCount) (live : r.get? handle = some l)
    (lives : ¬ m.Ends l) : ∃ l', (r.step m).get? handle = some l' ∧ l'.id = l.id := by
  have changed (handle' : Handle) {f : LoadedList → LoadedList} (keeps : ∀ l, (f l).id = l.id) :
      ∃ l', (r.modifyAt handle' f).get? handle = some l' ∧ l'.id = l.id := by
    rw [get?_modifyAt, live]
    split
    · exact ⟨f l, rfl, keeps l⟩
    · exact ⟨l, rfl, rfl⟩
  cases m with
  | insert l' =>
    rw [step_insert room, get?_insert_of_lt (lt_of_get? live)]
    exact ⟨l, sound.get?_remove_of_ne live lives, rfl⟩
  | remove listId => exact ⟨l, sound.get?_remove_of_ne live lives, rfl⟩
  | clear => exact (lives trivial).elim
  | change handle' f keeps => exact changed handle' keeps
  | changeNamed listId f keeps =>
    cases has : r.handle? listId with
    | none => exact ⟨l, by rw [step, modify_of_none has, live], rfl⟩
    | some handle' =>
      rw [step, modify_of_some has]
      exact changed handle' keeps

/-- A slot that is empty stays empty. -/
theorem get?_step_of_gone {m : Move} (room : (r.step m).slots.length ≤ handleCount)
    (used : handle < r.slots.length) (gone : r.get? handle = none) :
    (r.step m).get? handle = none := by
  have removed (listId : ListId) : (r.remove listId).1.get? handle = none := by
    cases has : r.handle? listId with
    | none => rwa [remove, has]
    | some handle' => simp [get?_remove has, gone]
  have changed (handle' : Handle) (f : LoadedList → LoadedList) :
      (r.modifyAt handle' f).get? handle = none := by
    simp [get?_modifyAt, gone]
  cases m with
  | insert l =>
    rw [step_insert room, get?_insert_of_lt used]
    exact removed l.id
  | remove listId => exact removed listId
  | clear => exact get?_clear r handle
  | change handle' f keeps => exact changed handle' f
  | changeNamed listId f keeps =>
    cases has : r.handle? listId with
    | none => rwa [step, modify_of_none has]
    | some handle' =>
      rw [step, modify_of_some has]
      exact changed handle' f

/-- A handle that was given and finds nothing will never find anything again. -/
theorem get?_run_of_gone {moves : List Move} (room : (r.run moves).slots.length ≤ handleCount)
    (used : handle < r.slots.length) (gone : r.get? handle = none) :
    (r.run moves).get? handle = none := by
  induction moves generalizing r with
  | nil => exact gone
  | cons m moves ih =>
    have longer : r.slots.length ≤ (r.step m).slots.length := by
      rw [length_step]
      exact Nat.le_add_right ..
    exact ih room (Nat.lt_of_lt_of_le used longer) (get?_step_of_gone (room_of_cons room) used gone)

/-! ## The handles of a run -/

/-- A registration that leaves room gives the number of the next slot. -/
theorem gives_eq {m : Move} (room : (r.step m).slots.length ≤ handleCount) :
    r.gives m = List.range' r.slots.length (insertions [m]) := by
  rw [length_step] at room
  cases m with
  | insert l =>
    rw [gives, insertNarrow_eq room, handle_insert, length_remove]
    rfl
  | remove | clear | change | changeNamed => rfl

/-- The handles given in a run are the slots that it adds. -/
theorem given_eq {moves : List Move} (room : (r.run moves).slots.length ≤ handleCount) :
    r.given moves = List.range' r.slots.length (insertions moves) := by
  induction moves generalizing r with
  | nil => rfl
  | cons m moves ih =>
    rw [insertions_cons, ← List.range'_append_1, ← length_step]
    exact congrArg₂ _ (gives_eq (room_of_cons room)) (ih room)

/-- No handle of a run on an empty registry stands for two lists. -/
structure NeverAlias (moves : List Move) : Prop where
  /-- Names, handles, the enumeration and the number of lists agree. -/
  agrees : (run {} moves).Agrees
  /-- No handle is given twice. -/
  fresh : (given {} moves).Nodup
  /-- A handle is given for the list that is registered. -/
  leads : ∀ before l after, moves = before ++ .insert l :: after →
    (run {} (before ++ [.insert l])).get? ((run {} before).insertNarrow l).2.1 = some l
  /-- The handle of a list that is replaced or taken out finds nothing for the rest of the run. -/
  gone : ∀ before m after handle l, moves = before ++ m :: after →
    (run {} before).get? handle = some l → m.Ends l → (run {} moves).get? handle = none
  /-- All other handles still find a list of the same name. -/
  kept : ∀ before m after handle l, moves = before ++ m :: after →
    (run {} before).get? handle = some l → ¬ m.Ends l →
    ∃ l', (run {} (before ++ [m])).get? handle = some l' ∧ l'.id = l.id

/-- Before any move of a run that fits, the registry is sound and has room for what the move
registers. -/
theorem sound_before {moves before after : List Move} {m : Move}
    (split : moves = before ++ m :: after) (room : (run {} moves).slots.length ≤ handleCount) :
    (run {} before).Sound ∧ ((run {} before).step m).slots.length ≤ handleCount := by
  have rest : (run {} moves).slots.length
      = ((run {} before).step m).slots.length + insertions after := by
    rw [split, run, List.foldl_append]
    exact length_run ((run {} before).step m) after
  have roomFor : ((run {} before).step m).slots.length ≤ handleCount := by omega
  refine ⟨sound_empty.run ?_, roomFor⟩
  rw [length_step] at roomFor
  exact Nat.le_trans (Nat.le_add_right ..) roomFor

/-- The handle of a list that a move of a run ends finds nothing at the end of the run. -/
theorem get?_run_of_ends {moves before after : List Move} {m : Move}
    (split : moves = before ++ m :: after) (room : (run {} moves).slots.length ≤ handleCount)
    (live : (run {} before).get? handle = some l) (ends : m.Ends l) :
    (run {} moves).get? handle = none := by
  obtain ⟨sound, roomFor⟩ := sound_before split room
  have used : handle < ((run {} before).step m).slots.length := by
    rw [length_step]
    exact Nat.lt_of_lt_of_le (lt_of_get? live) (Nat.le_add_right ..)
  have whole : run {} moves = ((run {} before).step m).run after := by
    rw [split, run, List.foldl_append]
    rfl
  rw [whole] at room ⊢
  exact get?_run_of_gone room used (get?_step_of_ends sound roomFor live ends)

/-- Handles never alias, in any run that registers fewer lists than there are handles of 32 bits. -/
theorem handles_never_alias (moves : List Move) (few : insertions moves < handleCount) :
    NeverAlias moves := by
  have room : (run {} moves).slots.length ≤ handleCount := by
    rw [length_run]
    show 0 + insertions moves ≤ handleCount
    omega
  refine ⟨(sound_empty.run room).agrees room, ?_, ?_,
    fun _ _ _ _ _ split => get?_run_of_ends split room, ?_⟩
  · rw [given_eq room]
    exact List.nodup_range'
  · intro before l after split
    obtain ⟨-, roomFor⟩ := sound_before split room
    rw [length_step] at roomFor
    rw [run, List.foldl_append]
    show ((run {} before).insertNarrow l).1.get? _ = some l
    rw [insertNarrow_eq roomFor, get?_insert, if_pos rfl]
  · intro before m after handle l split live lives
    obtain ⟨sound, roomFor⟩ := sound_before split room
    rw [run, List.foldl_append]
    exact get?_step_of_not_ends sound roomFor live lives

/-- A list with one item. -/
def single (listId : ListId) (item : Item) : LoadedList :=
  ⟨listId, [item], .index ⟨none, none, 0, 1, []⟩⟩

/-- What is done to two lists: one is registered twice, the other taken out in between, and all are
taken out before the first is registered for the third time. -/
def twoNames : List Move :=
  [.insert (single "a" (.str "x")), .insert (single "a" (.str "y")), .insert (single "b" .null),
    .remove "b", .changeNamed "a" (fun l => { l with items := [.null] }) fun _ => rfl,
    .insert (single "b" (.str "z")), .clear, .insert (single "a" (.str "x"))]

/-- Five registrations under two names have five handles, of which only the last finds a list. -/
theorem handles_never_alias_twoNames :
    insertions twoNames < handleCount ∧ NeverAlias twoNames
    ∧ given {} twoNames = [0, 1, 2, 3, 4]
    ∧ (run {} twoNames).get? 0 = none ∧ (run {} twoNames).get? 1 = none
    ∧ (run {} twoNames).get? 2 = none ∧ (run {} twoNames).get? 3 = none
    ∧ (run {} twoNames).toListNarrow = [(4, single "a" (.str "x"))] := by
  have few : insertions twoNames < handleCount := by decide
  have never := handles_never_alias twoNames few
  refine ⟨few, never, by decide, ?_, ?_, ?_, ?_, by decide⟩
  · exact never.gone (twoNames.take 1) _ _ 0 (single "a" (.str "x")) rfl (by decide) rfl
  · exact never.gone (twoNames.take 6) _ _ 1 (single "a" .null) rfl (by decide) trivial
  · exact never.gone (twoNames.take 3) _ _ 2 (single "b" .null) rfl (by decide) rfl
  · exact never.gone (twoNames.take 6) _ _ 3 (single "b" (.str "z")) rfl (by decide) trivial

end ListSync.Registry
