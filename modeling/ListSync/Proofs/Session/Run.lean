import ListSync.Proofs.Trace
import ListSync.Session.Access
import ListSync.Session.Update

/-!
# Runs of a session

`Session.Move` lists what a host can do with a session, and `Session.step` is the session after a
move. A session is reachable when a run of moves leads to it from a new one. To apply all waiting
updates is to deliver them one by one (`process_eq_run`), so a run passes through the sessions in
between as well.

`Always` says that a property holds all along a run, `Throughout` that all moves of a run keep a
condition where they happen. `always_iff_throughout` ties the two together for a law that outlives a
move exactly under the condition.
-/

namespace ListSync.Session

/-- What a host can do with a session. -/
inductive Move where
  | register (kindName : String) (payload : Json)
  | apply (kindName : String) (payload : Json)
  | ensureIndex (listId : ListId) (i : Int) (inRange : Index.InRange i)
  | ensurePosition (listId : ListId) (position : Nat)
  | fetchPage (listId : ListId) (direction : Direction)
  | takeRequests
  | takeHeard
  | takeChanges
  | takeReports
  | listen
  | unlisten
  | send (kindName : String) (payload : Json)
  | sendText (kindName : String) (text : String)
  /-- Apply the update that has waited longest. -/
  | deliver
  | finish

/-- Apply the update that has waited longest, if any waits. -/
def deliver (s : Session) : Session :=
  match s.inbox with
  | [] => s
  | u :: rest => ({ s with inbox := rest }.apply u.kindName u.payload).1

/-- Where no update waits, a delivery leaves the session as it is. -/
theorem deliver_of_nil {s : Session} (h : s.inbox = []) : s.deliver = s := by
  unfold deliver
  rw [h]

/-- The session after a move. -/
def step (s : Session) : Move → Session
  | .register kindName payload => (s.register kindName payload).1
  | .apply kindName payload => (s.apply kindName payload).1
  | .ensureIndex listId i _ => (s.ensureIndex listId i).1
  | .ensurePosition listId position => (s.ensurePosition listId position).1
  | .fetchPage listId direction => (s.fetchPage listId direction).1
  | .takeRequests => s.takeRequests.1
  | .takeHeard => s.takeHeard.1
  | .takeChanges => s.takeChanges.1
  | .takeReports => s.takeReports.1
  | .listen => s.listen
  | .unlisten => s.unlisten
  | .send kindName payload => (s.send kindName payload).1
  | .sendText kindName text => (s.sendText kindName text).1
  | .deliver => s.deliver
  | .finish => s.finish

/-- The update that a move hands to a session. -/
def Move.update? (s : Session) : Move → Option QueuedUpdate
  | .apply kindName payload => some ⟨kindName, payload⟩
  | .deliver => s.inbox.head?
  | _ => none

/-- The session after some moves. -/
def run (s : Session) (moves : List Move) : Session := moves.foldl step s

/-- A session is what it was after no move. -/
@[simp]
theorem run_nil (s : Session) : s.run [] = s := rfl

/-- A run goes on from the session after its first move. -/
@[simp]
theorem run_cons (s : Session) (m : Move) (moves : List Move) :
    s.run (m :: moves) = (s.step m).run moves := rfl

/-- A run goes on from the session after the moves before. -/
theorem run_append (s : Session) (moves later : List Move) :
    s.run (moves ++ later) = (s.run moves).run later := List.foldl_append ..

/-- A session that a run of moves leads to from a new one. -/
inductive Reachable : Session → Prop
  | create {policy : Policy} {s : Session} (h : Session.create policy = .ok s) : Reachable s
  | step {s : Session} (h : Reachable s) (m : Move) : Reachable (s.step m)

/-- What a run leads to from a reachable session is reachable. -/
theorem Reachable.run {s : Session} (h : Reachable s) (moves : List Move) :
    Reachable (s.run moves) := by
  induction moves generalizing s with
  | nil => exact h
  | cons m moves ih => exact ih (h.step m)

/-- The session with the default policy is reachable. -/
theorem reachable_default : Reachable {} :=
  .create (show Session.create {} = .ok {} from rfl)

/-- Sessions that ask for one item at a time. -/
theorem created_single : create ⟨1, 0⟩ = .ok { policy := ⟨1, 0⟩ } := rfl

/-- One is an index that a session can hold. -/
theorem inRange_one : Index.InRange 1 := by decide

/-- Three is an index that a session can hold. -/
theorem inRange_three : Index.InRange 3 := by decide

/-! ## Waiting updates -/

/-- The session with other updates waiting. -/
def withInbox (s : Session) (inbox : List QueuedUpdate) : Session := { s with inbox }

variable (s : Session) (inbox : List QueuedUpdate)

/-- To record a change does not look at the waiting updates. -/
theorem publish_withInbox (listId : ListId) (d : Diff) :
    (s.withInbox inbox).publish listId d = (s.publish listId d).withInbox inbox := by
  unfold publish
  split <;> rfl

/-- To note a version does not look at the waiting updates. -/
theorem acceptVersion_withInbox (listId : ListId) (v : Option Version) :
    (s.withInbox inbox).acceptVersion listId v = (s.acceptVersion listId v).withInbox inbox := by
  cases v <;> rfl

/-- To report a rejection does not look at the waiting updates. -/
theorem reject_withInbox (payload : Json) (why : Rejection) :
    (s.withInbox inbox).reject payload why = (s.reject payload why).withInbox inbox := by
  unfold reject
  split <;> rfl

/-- How an accepted update ends has nothing to do with what waits. -/
theorem accepted_withInbox {next next' : Session} {inbox : List QueuedUpdate}
    (h : next' = next.withInbox inbox) (listId : ListId) (v : Option Version) (d : Diff) :
    (next'.acceptVersion listId v).publish listId d
      = ((next.acceptVersion listId v).publish listId d).withInbox inbox := by
  rw [h, acceptVersion_withInbox, publish_withInbox]

/-- A batch is applied alike, whatever updates wait. -/
theorem applyBatch_withInbox (list : LoadedList) (b : Batch) :
    (s.withInbox inbox).applyBatch list b
      = ((s.applyBatch list b).1.withInbox inbox, (s.applyBatch list b).2) := by
  have check : (s.withInbox inbox).checkVersion b.listId b.version
      = s.checkVersion b.listId b.version := rfl
  unfold applyBatch
  rw [check]
  cases s.checkVersion b.listId b.version with
  | error why => rfl
  | ok _ =>
    cases list.window with
    | index w =>
      refine Prod.ext ?_ rfl
      dsimp only
      exact accepted_withInbox (by rfl) ..
    | token w =>
      refine Prod.ext ?_ rfl
      dsimp only
      exact accepted_withInbox (by rfl) ..

/-- An answered range is taken in alike, whatever updates wait. -/
theorem applyRange_withInbox (list : LoadedList) (a : RangeAnswer) :
    (s.withInbox inbox).applyRange list a
      = ((s.applyRange list a).1.withInbox inbox, (s.applyRange list a).2) := by
  have check : (s.withInbox inbox).checkRange a = s.checkRange a := rfl
  unfold applyRange
  rw [check]
  cases s.checkRange a with
  | error why => rfl
  | ok asked =>
    cases list.window with
    | token w => rfl
    | index w =>
      simp only
      split
      · rfl
      · exact Prod.ext (accepted_withInbox (by rfl) ..) rfl

/-- An answered page is taken in alike, whatever updates wait. -/
theorem applyPage_withInbox (list : LoadedList) (a : PageAnswer) :
    (s.withInbox inbox).applyPage list a
      = ((s.applyPage list a).1.withInbox inbox, (s.applyPage list a).2) := by
  have check : (s.withInbox inbox).checkPage a = s.checkPage a := rfl
  unfold applyPage
  rw [check]
  cases s.checkPage a with
  | error why => rfl
  | ok asked =>
    cases list.window with
    | index w => rfl
    | token w =>
      simp only
      split
      · rfl
      · exact Prod.ext (accepted_withInbox (by rfl) ..) rfl

/-- An update that was read has the same outcome, whatever other updates wait. -/
theorem dispatch_withInbox (kind : Kind) (u : Update) :
    (s.withInbox inbox).dispatch kind u
      = ((s.dispatch kind u).1.withInbox inbox, (s.dispatch kind u).2) := by
  have find : (s.withInbox inbox).findKind u.listId kind = s.findKind u.listId kind := rfl
  unfold dispatch
  rw [find]
  cases s.findKind u.listId kind with
  | error why => rfl
  | ok list =>
    cases u with
    | batch b => exact s.applyBatch_withInbox inbox list b
    | range a => exact s.applyRange_withInbox inbox list a
    | page a => exact s.applyPage_withInbox inbox list a

/-- What waits to be applied has no part in how an update is handled. -/
theorem apply_withInbox (kindName : String) (payload : Json) :
    (s.withInbox inbox).apply kindName payload
      = ((s.apply kindName payload).1.withInbox inbox, (s.apply kindName payload).2) := by
  have same : (s.withInbox inbox).finished = s.finished := rfl
  unfold apply
  rw [same]
  cases s.finished with
  | true => rfl
  | false =>
    simp only [Bool.false_eq_true, if_false]
    cases readUpdate kindName payload with
    | error why => exact Prod.ext (s.reject_withInbox inbox payload why) rfl
    | ok read =>
      simp only
      rw [s.dispatch_withInbox inbox read.1 read.2]
      cases s.dispatch read.1 read.2 with
      | mk next answer =>
        cases answer with
        | ok applied => rfl
        | error why => exact Prod.ext (next.reject_withInbox inbox payload why) rfl

/-- An update is applied alike on its own and while others wait. -/
theorem applyQueued_withInbox (accepted : Nat) (u : QueuedUpdate) :
    (applyQueued (s.withInbox inbox, accepted) u).1
      = (s.apply u.kindName u.payload).1.withInbox inbox := by
  have next : (applyQueued (s.withInbox inbox, accepted) u).1
      = ((s.withInbox inbox).apply u.kindName u.payload).1 := by
    unfold applyQueued
    split
    · rename_i h
      rw [h]
    · rename_i h
      rw [h]
  rw [next, apply_withInbox]

/-- To apply all waiting updates at once is to deliver them one after the other. -/
theorem foldl_applyQueued (waiting : List QueuedUpdate) (accepted : Nat) :
    (waiting.foldl applyQueued (s.withInbox [], accepted)).1
      = (s.withInbox waiting).run (List.replicate waiting.length .deliver) := by
  induction waiting generalizing s accepted with
  | nil => rfl
  | cons u waiting ih =>
    have delivered : (s.withInbox (u :: waiting)).step .deliver
        = (s.apply u.kindName u.payload).1.withInbox waiting :=
      congrArg Prod.fst (s.apply_withInbox waiting u.kindName u.payload)
    rw [List.foldl_cons, List.length_cons, List.replicate_succ, run_cons, delivered, ← ih _
      (applyQueued (s.withInbox [], accepted) u).2, ← s.applyQueued_withInbox [] accepted u]

/-- To apply all waiting updates is to deliver them one by one. -/
theorem process_eq_run :
    s.process.1 = s.run (List.replicate s.inbox.length .deliver) :=
  s.foldl_applyQueued s.inbox 0

/-! ## All along a run -/

/-- A property holds at the start of a run and after each of its moves. -/
def Always (P : Session → Prop) (s : Session) : List Move → Prop
  | [] => P s
  | m :: moves => P s ∧ (s.step m).Always P moves

/-- A condition holds for every move of a run, in the session in which it happens. -/
def Throughout (C : Session → Move → Prop) (s : Session) : List Move → Prop
  | [] => True
  | m :: moves => C s m ∧ (s.step m).Throughout C moves

instance decidableThroughout (C : Session → Move → Prop) [∀ s m, Decidable (C s m)] :
    ∀ (s : Session) (moves : List Move), Decidable (s.Throughout C moves)
  | _, [] => .isTrue trivial
  | s, m :: moves =>
    have := decidableThroughout C (s.step m) moves
    inferInstanceAs (Decidable (C s m ∧ (s.step m).Throughout C moves))

variable {P J : Session → Prop} {C : Session → Move → Prop}

/-- A condition holds throughout two runs on end if it holds throughout each of them. -/
theorem throughout_append {s : Session} {moves later : List Move} :
    s.Throughout C (moves ++ later) ↔ s.Throughout C moves ∧ (s.run moves).Throughout C later := by
  induction moves generalizing s with
  | nil => simp [Throughout]
  | cons m moves ih =>
    show C s m ∧ (s.step m).Throughout C (moves ++ later) ↔ _
    rw [ih, ← and_assoc]
    rfl

/-- What always holds on a run of a session is what always holds on its trace. -/
theorem always_iff_trace {s : Session} {moves : List Move} :
    s.Always P moves ↔ Trace.Always step P s moves := by
  induction moves generalizing s with
  | nil => exact Iff.rfl
  | cons m moves ih => exact and_congr_right fun _ => ih

/-- What holds of every move of a run holds of every step of its trace. -/
theorem throughout_iff_trace {s : Session} {moves : List Move} :
    s.Throughout C moves ↔ Trace.Throughout step C s moves := by
  induction moves generalizing s with
  | nil => exact Iff.rfl
  | cons m moves ih => exact and_congr_right fun _ => ih

/-- Where an invariant that implies a law outlives each move that keeps a condition, and the law
does not outlive any other move, the law holds all along a run exactly when all moves keep the
condition. -/
theorem always_iff_throughout (law : ∀ s, J s → P s) (keeps : ∀ s m, J s → C s m → J (s.step m))
    (needs : ∀ s m, J s → P (s.step m) → C s m) {s : Session} (known : J s) (moves : List Move) :
    s.Always P moves ↔ s.Throughout C moves := by
  rw [always_iff_trace, throughout_iff_trace]
  exact Trace.always_iff_throughout law keeps needs known moves

end ListSync.Session
