import ListSync.Proofs.Handles
import ListSync.Proofs.Session.Effect

/-!
# Sessions with handles of 32 bits

A session names its lists by slots. Where it names them by 32 bits instead (`stepNarrow`), nothing
is different along a run that takes in fewer lists than 32 bits can tell apart (`runNarrow_eq`): the
sessions are the same, and so are the handles that are given.

A slot is used for each list that is taken in, and no other move changes their number
(`slots_step`), so there is room for each of them.
-/

namespace ListSync

namespace Registry

/-- A change under a handle keeps the number of slots. -/
@[simp]
theorem length_modifyAt (r : Registry) (handle : Handle) (f : LoadedList → LoadedList) :
    (r.modifyAt handle f).slots.length = r.slots.length := by
  simp [modifyAt]

/-- A change under a name keeps the number of slots. -/
@[simp]
theorem length_modify (r : Registry) (listId : ListId) (f : LoadedList → LoadedList) :
    (r.modify listId f).slots.length = r.slots.length := by
  unfold modify
  split <;> simp

/-- There are as many slots without the windows. -/
@[simp]
theorem length_bare (r : Registry) : r.bare.slots.length = r.slots.length := by
  simp [bare]

end Registry

namespace Session

open Registry (handleCount insertNarrow)

variable {s next : Session} {m : Move}

/-! ## Handles of 32 bits -/

/-- The session after a move, with handles of 32 bits. -/
def stepNarrow (s : Session) : Move → Session
  | .register kindName payload => (s.registerBy insertNarrow kindName payload).1
  | m => s.step m

/-- The session after some moves, with handles of 32 bits. -/
def runNarrow (s : Session) (moves : List Move) : Session := moves.foldl stepNarrow s

/-- The handle that a move gives, if it takes a list in. -/
def gives (s : Session) : Move → List Handle
  | .register kindName payload => (s.register kindName payload).2.toOption.toList
  | _ => []

/-- The handle of 32 bits that a move gives, if it takes a list in. -/
def givesNarrow (s : Session) : Move → List Handle
  | .register kindName payload => (s.registerBy insertNarrow kindName payload).2.toOption.toList
  | _ => []

/-- The handles given in a run, in order. -/
def given (s : Session) (moves : List Move) : List Handle := Trace.gather step gives s moves

/-- The handles of 32 bits given in a run, in order. -/
def givenNarrow (s : Session) (moves : List Move) : List Handle :=
  Trace.gather stepNarrow givesNarrow s moves

/-! ## Slots -/

/-- The number of slots that a session has used. -/
def slots (s : Session) : Nat := s.lists.slots.length

/-- The number of slots is that of the core. -/
theorem slots_of_core {c : Core} (core : next.core = c) : next.slots = c.lists.slots.length := by
  rw [← core]
  rfl

/-- Sessions that differ in windows and requests only have as many slots. -/
theorem slots_of_still (same : next.still = s.still) : next.slots = s.slots := by
  have bare : next.lists.bare = s.lists.bare := congrArg (·.lists) same
  rw [slots, slots, ← s.lists.length_bare, ← bare, Registry.length_bare]

/-- Whatever comes of an update, it uses no slot. -/
theorem slots_of_outcome {u : QueuedUpdate} {answer : Except Rejection Applied}
    (h : Outcome s u next answer) : next.slots = s.slots := by
  cases h with
  | refused => exact slots_of_core (core_reject ..)
  | edited accepted core => exact (slots_of_core core).trans (Registry.length_modify ..)
  | merged answered loaded range absorbed core =>
    exact (slots_of_core core).trans (Registry.length_modify ..)
  | detached => exact (slots_of_core (core_reject ..)).trans (Registry.length_modify ..)
  | joined answered loaded page core =>
    exact (slots_of_core core).trans (Registry.length_modify ..)
  | mispaged => exact (slots_of_core (core_reject ..)).trans (Registry.length_modify ..)

/-- A move that hands over an update adds no slot. -/
theorem slots_of_update {u : QueuedUpdate} (update : m.update? s = some u) :
    (s.step m).slots = s.slots :=
  (slots_of_core (core_of_update? update)).trans (slots_of_outcome (outcome_apply s u))

/-- A list that is taken in uses one slot. -/
theorem slots_install (s : Session) (list : LoadedList) (version : Option Version) :
    (s.install list version).1.slots = s.slots + 1 := by
  rw [slots_of_core (core_install s list version)]
  simp [Registry.insert, slots]

/-- A registration uses a slot if it gives a handle. -/
theorem slots_of_registration {kindName : String} {payload : Json}
    {answer : Except Rejection Handle} (h : Registration s kindName payload next answer) :
    next.slots = s.slots + answer.toOption.toList.length := by
  cases h with
  | refused why => exact slots_of_core (core_reject ..)
  | installed unfinished inRange read => exact slots_install ..

/-- The slots of a session that finishes stay, though they are emptied. -/
theorem slots_finish (s : Session) : s.finish.slots = s.slots := by
  unfold finish
  split
  · rfl
  · simp [slots, Registry.clear]

/-- Each list that a move takes in uses one more slot, and nothing else changes their number. -/
theorem slots_step (s : Session) (m : Move) : (s.step m).slots = s.slots + (s.gives m).length := by
  cases m with
  | register kindName payload => exact slots_of_registration (registration_register ..)
  | apply kindName payload => exact slots_of_update rfl
  | ensureIndex listId i _ => exact slots_of_still (still_ensureIndex ..)
  | ensurePosition listId position => exact slots_of_still (still_ensurePosition ..)
  | fetchPage listId d => exact slots_of_still (still_fetchPage ..)
  | takeRequests | takeHeard | takeChanges | takeReports | listen | unlisten => rfl
  | send kindName payload => exact slots_of_core (core_send ..)
  | sendText kindName text => exact slots_of_core (core_sendText ..)
  | deliver =>
    cases waiting : s.inbox with
    | nil => exact congrArg slots (deliver_of_nil waiting)
    | cons u rest => exact slots_of_update (by rw [Move.update?, waiting, List.head?_cons])
  | finish => exact s.slots_finish

/-- A run adds a slot for each handle that it gives. -/
theorem slots_run (s : Session) (moves : List Move) :
    (s.run moves).slots = s.slots + (s.given moves).length := by
  induction moves generalizing s with
  | nil => rfl
  | cons m moves ih =>
    have first : (s.given (m :: moves)).length
        = (s.gives m).length + ((s.step m).given moves).length := List.length_append
    rw [run_cons, ih, slots_step, first, Nat.add_assoc]

/-! ## The same with 32 bits -/

/-- Where a list that is taken in still gets a slot that 32 bits can name, its registration does not
depend on how many bits a handle has. -/
theorem registerBy_insertNarrow {kindName : String} {payload : Json}
    (room : s.slots + (s.gives (.register kindName payload)).length ≤ handleCount) :
    s.registerBy insertNarrow kindName payload = s.register kindName payload := by
  simp only [gives] at room
  unfold register at room ⊢
  unfold registerBy at room ⊢
  split
  · rfl
  · rename_i unfinished
    rw [if_neg unfinished] at room
    cases read : readList kindName payload with
    | error why => rfl
    | ok listVersion =>
      have free : s.lists.slots.length < handleCount := by
        rw [read] at room
        exact room
      simp only [installBy, Registry.insertNarrow_eq free]

/-- A move that leaves room is the same under handles of 32 bits. -/
theorem stepNarrow_eq (room : (s.step m).slots ≤ handleCount) : s.stepNarrow m = s.step m := by
  rw [slots_step] at room
  cases m with
  | register kindName payload => exact congrArg Prod.fst (registerBy_insertNarrow room)
  | _ => rfl

/-- A move that leaves room gives the same handle in 32 bits. -/
theorem givesNarrow_eq (room : (s.step m).slots ≤ handleCount) : s.givesNarrow m = s.gives m := by
  rw [slots_step] at room
  cases m with
  | register kindName payload => exact congrArg (·.2.toOption.toList) (registerBy_insertNarrow room)
  | _ => rfl

/-- Along a run with room for all lists that it takes in, nothing depends on how many bits a handle
has. -/
theorem runNarrow_of_room {moves : List Move} (room : (s.run moves).slots ≤ handleCount) :
    s.runNarrow moves = s.run moves ∧ s.givenNarrow moves = s.given moves := by
  induction moves generalizing s with
  | nil => exact ⟨rfl, rfl⟩
  | cons m moves ih =>
    have first : (s.step m).slots ≤ handleCount := by
      rw [run_cons, slots_run] at room
      exact Nat.le_trans (Nat.le_add_right ..) room
    obtain ⟨rest, restGiven⟩ := ih room
    constructor
    · show (s.stepNarrow m).runNarrow moves = _
      rw [stepNarrow_eq first]
      exact rest
    · show s.givesNarrow m ++ (s.stepNarrow m).givenNarrow moves = _
      rw [givesNarrow_eq first, stepNarrow_eq first, restGiven]
      rfl

/-- A session whose handles have 32 bits goes the same way as one that names slots, and gives the
same handles, along any run that takes in fewer lists than there are such handles. The enumeration
of its lists tells the same handles as well. -/
theorem runNarrow_eq {policy : Policy} (made : create policy = .ok s) {moves : List Move}
    (few : (s.given moves).length < handleCount) :
    s.runNarrow moves = s.run moves ∧ s.givenNarrow moves = s.given moves
      ∧ (s.run moves).lists.toListNarrow = (s.run moves).lists.toList := by
  obtain ⟨policy', -, rfl⟩ := eq_of_create made
  have none : ({ policy := policy' } : Session).slots = 0 := rfl
  have room : (run { policy := policy' } moves).slots ≤ handleCount := by
    rw [slots_run, none]
    omega
  obtain ⟨same, given⟩ := runNarrow_of_room room
  exact ⟨same, given, Registry.toListNarrow_eq room⟩

end Session

end ListSync
