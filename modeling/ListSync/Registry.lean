import ListSync.LoadedList
import ListSync.Table

/-!
# The registry of lists

The lists of a session, under their names and under handles. Each registration gets a slot of its
own, and slots are never given to another list, so the handle of a list that was replaced or removed
finds nothing from then on. A name always finds what was registered under it last.

Handles are slots here. `insertNarrow` and `toListNarrow` name slots by 32 bits, which is the same
as long as there are no more slots than that. `Session.runNarrow_eq` says so of whole sessions.
-/

namespace ListSync

/-- Names a registration of a list. -/
abbrev Handle := Nat

/-- The lists of a session. -/
structure Registry where
  /-- The list of each handle, nothing where it is gone. -/
  slots : List (Option LoadedList) := []
  /-- The handle of each list that is registered. -/
  handles : Table ListId Handle := {}

namespace Registry

instance : Inhabited Registry := ⟨{}⟩

/-- The handle of a list. -/
def handle? (r : Registry) (listId : ListId) : Option Handle := r.handles.get? listId

/-- The list of a handle. -/
def get? (r : Registry) (handle : Handle) : Option LoadedList := r.slots[handle]?.join

/-- The list with a name. -/
def find? (r : Registry) (listId : ListId) : Option LoadedList := (r.handle? listId).bind r.get?

/-- Take out the list with a name, and say what it was. -/
def remove (r : Registry) (listId : ListId) : Registry × Option LoadedList :=
  match r.handle? listId with
  | none => (r, none)
  | some handle => (⟨r.slots.set handle none, r.handles.erase listId⟩, r.get? handle)

/-- Register a list, in place of any other of its name. Gives the handle and what was replaced. -/
def insert (r : Registry) (l : LoadedList) : Registry × Handle × Option LoadedList :=
  let (rest, replaced) := r.remove l.id
  let handle := rest.slots.length
  (⟨rest.slots ++ [some l], rest.handles.insert l.id handle⟩, handle, replaced)

/-- Change the list of a handle. -/
def modifyAt (r : Registry) (handle : Handle) (f : LoadedList → LoadedList) : Registry :=
  { r with slots := r.slots.modify handle (Option.map f) }

/-- Change the list with a name. -/
def modify (r : Registry) (listId : ListId) (f : LoadedList → LoadedList) : Registry :=
  match r.handle? listId with
  | some handle => r.modifyAt handle f
  | none => r

/-- The lists that are registered, with their handles, oldest first. -/
def toList (r : Registry) : List (Handle × LoadedList) :=
  r.slots.zipIdx.filterMap fun (slot, handle) => slot.map (handle, ·)

/-- The number of lists. -/
def size (r : Registry) : Nat := r.handles.size

/-- Take out all lists. Their handles stay used. -/
def clear (r : Registry) : Registry := ⟨r.slots.map fun _ => none, {}⟩

/-! ## Handles of 32 bits -/

/-- The number of handles that 32 bits can tell apart. -/
def handleCount : Nat := 0x100000000

/-- What 32 bits keep of the number of a slot. -/
def narrow (slot : Nat) : Handle := slot % handleCount

/-- Register a list, in place of any other of its name, under a handle of 32 bits. -/
def insertNarrow (r : Registry) (l : LoadedList) : Registry × Handle × Option LoadedList :=
  let (rest, replaced) := r.remove l.id
  let handle := narrow rest.slots.length
  (⟨rest.slots ++ [some l], rest.handles.insert l.id handle⟩, handle, replaced)

/-- The lists that are registered, with handles of 32 bits, oldest first. -/
def toListNarrow (r : Registry) : List (Handle × LoadedList) :=
  r.slots.zipIdx.filterMap fun (slot, place) => slot.map (narrow place, ·)

/-! ## Look-ups after a registration -/

/-- What was registered last is found under its name. -/
theorem find?_insert_self (r : Registry) (l : LoadedList) : (r.insert l).1.find? l.id = some l := by
  simp [insert, find?, handle?, get?, Table.get?_insert]

/-- Nothing is found under the name of a list that was taken out. -/
theorem find?_remove_self (r : Registry) (listId : ListId) :
    (r.remove listId).1.find? listId = none := by
  unfold remove
  split
  · rename_i h
    simp [find?, h]
  · simp [find?, handle?, Table.get?_erase]

/-- No name finds a list in a cleared registry. -/
theorem find?_clear (r : Registry) (listId : ListId) : r.clear.find? listId = none := by
  simp [clear, find?, handle?]

end Registry

end ListSync
