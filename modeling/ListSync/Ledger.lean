import ListSync.Kind
import ListSync.Table

/-!
# Versions of lists

Every versioned payload for a list must carry the next version. A list whose version is not known
takes any version as its first. `wouldAccept_iff` says so, and the lemmas behind it say what each
change does to every version.
-/

namespace ListSync

/-- The last accepted version of each list. -/
structure Ledger where
  current : Table ListId Version := {}

namespace Ledger

/-- The last accepted version of a list. -/
def current? (l : Ledger) (listId : ListId) : Option Version := l.current.get? listId

/-- Set the version of a list. -/
def assign (l : Ledger) (listId : ListId) (v : Version) : Ledger :=
  ⟨l.current.insert listId v⟩

/-- Forget the version of a list. -/
def forget (l : Ledger) (listId : ListId) : Ledger := ⟨l.current.erase listId⟩

/-- Whether a version would be accepted next. The greatest version has none after it. -/
def wouldAccept (l : Ledger) (listId : ListId) (v : Version) : Bool :=
  match l.current? listId with
  | some current => current < maxCount && current + 1 = v
  | none => true

/-- Accept a version if it is the next one, and say whether it was. -/
def tryAccept (l : Ledger) (listId : ListId) (v : Version) : Ledger × Bool :=
  if l.wouldAccept listId v then (⟨l.current.insert listId v⟩, true) else (l, false)

/-- The version a list expects next. The greatest version is followed by itself. -/
def expected? (l : Ledger) (listId : ListId) : Option Version :=
  (l.current? listId).map fun v => min (v + 1) maxCount

/-! ## Versions after a change -/

/-- A list that is assigned a version has it, and all others have theirs. -/
theorem current?_assign (l : Ledger) (listId other : ListId) (v : Version) :
    (l.assign listId v).current? other = if other = listId then some v else l.current? other :=
  Table.get?_insert ..

/-- A list that is forgotten has no version, and all others have theirs. -/
theorem current?_forget (l : Ledger) (listId other : ListId) :
    (l.forget listId).current? other = if other = listId then none else l.current? other :=
  Table.get?_erase ..

/-- A version is accepted if it comes next, or if none is known. -/
theorem wouldAccept_iff (l : Ledger) (listId : ListId) (v : Version) :
    l.wouldAccept listId v
      ↔ ∀ current, l.current? listId = some current → current < maxCount ∧ current + 1 = v := by
  unfold wouldAccept
  split <;> simp_all

/-- A version that would be accepted is, and becomes the current one. -/
theorem tryAccept_of_wouldAccept {l : Ledger} {listId : ListId} {v : Version}
    (h : l.wouldAccept listId v) : l.tryAccept listId v = (l.assign listId v, true) := by
  simp [tryAccept, assign, h]

/-- A version that would not be accepted is not, and all stay as they are. -/
theorem tryAccept_of_not_wouldAccept {l : Ledger} {listId : ListId} {v : Version}
    (h : ¬l.wouldAccept listId v) : l.tryAccept listId v = (l, false) := by
  simp [tryAccept, h]

end Ledger

end ListSync
