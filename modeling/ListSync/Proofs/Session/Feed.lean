import ListSync.Producer.Message
import ListSync.Proofs.Edits
import ListSync.Proofs.RoundTrip
import ListSync.Proofs.Session.Effect

/-!
# Batches from a producer

A client hands the batches that a producer sends to its session. A batch of the next version whose
edits all fit the loaded items is accepted without a warning and does to the items what its edits do
(`apply_fitting`). An update for one list leaves all others as they are (`apply_other`), and so do
any number of batches for it (`feed_other`).
-/

namespace ListSync.Session

open Producer

/-- Apply the batches among some messages in order, and say how each was answered. -/
def feed (s : Session) : List ServerMessage → Session × List (Except Rejection Applied)
  | [] => (s, [])
  | .update kind b :: rest =>
    let (next, answer) := s.apply kind.name b.toJson
    let (last, answers) := next.feed rest
    (last, answer :: answers)
  | _ :: rest => s.feed rest

variable {s : Session}

/-- A session stays reachable as it takes in messages. -/
theorem Reachable.feed (h : Reachable s) (ms : List ServerMessage) : Reachable (s.feed ms).1 := by
  induction ms generalizing s with
  | nil => exact h
  | cons m ms ih =>
    cases m with
    | update kind b => exact ih (h.step (.apply kind.name b.toJson))
    | _ => exact ih h

/-! ## Updates for another list -/

/-- Of a list the same items, window and version are known as before. -/
structure Alike (s next : Session) (listId : ListId) : Prop where
  find? : next.find? listId = s.find? listId
  version? : next.version? listId = s.version? listId

theorem Alike.of_core_eq {next : Session} (same : next.core = s.core) (listId : ListId) :
    Alike s next listId :=
  ⟨congrArg (fun c : Core => c.lists.find? listId) same,
    congrArg (fun c : Core => c.versions.current? listId) same⟩

/-- A change of one list, of the requests and of the version of the list leaves all other lists. -/
theorem alike_of_change (sound : s.core.Sound) {next : Session} {listId other : ListId}
    (apart : other ≠ listId) {f : LoadedList → LoadedList} {t : RequestTable} {v : Option Version}
    (core : next.core = { s.core with
      lists := s.lists.modify listId f
      requests := t
      versions := acceptedVersions s.versions listId v }) : Alike s next other where
  find? := by
    have lists : next.lists = s.lists.modify listId f := congrArg Core.lists core
    have kept : (s.lists.modify listId f).find? other = _ :=
      sound.lists.find?_modify listId other f
    rw [find?, lists, kept, if_neg apart]
    rfl
  version? := by
    have versions : next.versions = acceptedVersions s.versions listId v :=
      congrArg Core.versions core
    rw [version?, versions, current?_acceptedVersions_other s.versions apart]
    rfl

/-- An update leaves the lists that it does not name. -/
theorem apply_other (sound : s.core.Sound) (kindName : String) {payload : Json}
    {listId other : ListId} (named : payload.member? "listId" = some (.str listId))
    (apart : other ≠ listId) : Alike s (s.apply kindName payload).1 other := by
  have outcome := outcome_apply s ⟨kindName, payload⟩
  generalize s.apply kindName payload = result at outcome
  obtain ⟨next, answer⟩ := result
  -- whatever list the update turns out to be for is the one that is named
  have own {listId' : ListId} (named' : payload.member? "listId" = some (.str listId')) :
      other ≠ listId' := by
    rw [named] at named'
    cases named'
    exact apart
  dsimp only at outcome ⊢
  cases outcome with
  | refused why plain unsettled => exact .of_core_eq (core_reject ..) other
  | edited accepted core =>
    obtain ⟨-, -, read, -⟩ := edits?_eq_some_iff.1 accepted
    exact alike_of_change sound (own (readFrom_of_readUpdate read).listId_eq) core
  | merged answered loaded range absorbed core =>
    exact alike_of_change sound (own (answered.listId ▸ answered.readFrom.listId_eq)) core
  | detached answered loaded range absorbed =>
    exact alike_of_change sound (own (answered.listId ▸ answered.readFrom.listId_eq)) (v := none)
      (core_reject ..)
  | joined answered loaded page core =>
    exact alike_of_change sound (own (answered.listId ▸ answered.readFrom.listId_eq)) core
  | mispaged answered loaded page other =>
    exact alike_of_change sound (own (answered.listId ▸ answered.readFrom.listId_eq)) (v := none)
      (core_reject ..)

/-- Batches for one list leave all others. -/
theorem feed_other (sound : s.core.Sound) {kind : Kind} {listId other : ListId}
    (apart : other ≠ listId) {ms : List ServerMessage}
    (only : ∀ m ∈ ms, ∃ b, m = .update kind b ∧ b.listId = listId) :
    Alike s (s.feed ms).1 other := by
  induction ms generalizing s with
  | nil => exact ⟨rfl, rfl⟩
  | cons m ms ih =>
    obtain ⟨b, rfl, own⟩ := only m List.mem_cons_self
    have named : b.toJson.member? "listId" = some (.str listId) := by
      rw [← own]
      rfl
    have first := apply_other sound kind.name named apart
    have rest := ih (effects_step sound (.apply kind.name b.toJson)).sound
      fun m h => only m (List.mem_cons_of_mem _ h)
    exact ⟨rest.find?.trans first.find?, rest.version?.trans first.version?⟩

/-! ## Batches that fit -/

theorem kind_editedWindow (window : Window) (delta : Int) :
    (editedWindow window delta).kind = window.kind := by cases window <;> rfl

/-- A batch of the next version for a loaded list is accepted. -/
theorem edits?_of_next (sound : s.core.Sound) {l : LoadedList} {b : Batch} {v : Version}
    (found : s.find? b.listId = some l) (current : s.version? b.listId = some v)
    (next : b.version = v + 1) (inRange : b.InRange) :
    s.edits? ⟨l.kind.name, b.toJson⟩ = some (l, b) := by
  have version : s.versions.wouldAccept b.listId b.version := by
    rw [Ledger.wouldAccept_iff]
    intro v' current'
    obtain rfl : v = v' := Option.some.inj (current.symm.trans current')
    have le : v + 1 ≤ maxCount := next ▸ inRange.version
    exact ⟨le, next.symm⟩
  have read : readUpdate l.kind.name b.toJson = .ok (l.kind, .batch b) := by
    simp only [readUpdate, Kind.parse, Kind.ofName?_name, Update.parse_toJson_batch inRange]
    rfl
  exact edits?_eq_some_iff.2 ⟨sound.unfinished found, found, read, checkVersion_eq_ok_iff.2 version⟩

/-- What a session knows of a list once a batch that fits was applied. -/
structure Fitted (s : Session) (l : LoadedList) (b : Batch) : Prop where
  answer : ∃ diff, (s.apply l.kind.name b.toJson).2 = .ok ⟨b.listId, diff, []⟩
  list : ∃ l', (s.apply l.kind.name b.toJson).1.find? b.listId = some l' ∧ l'.kind = l.kind
    ∧ l'.items = Edit.spliceAll b.edits l.items
  version : (s.apply l.kind.name b.toJson).1.version? b.listId = some b.version

/-- A batch of the next version whose edits all fit is accepted without a warning. -/
theorem apply_fitting (sound : s.core.Sound) {l : LoadedList} {b : Batch} {v : Version}
    (found : s.find? b.listId = some l) (current : s.version? b.listId = some v)
    (next : b.version = v + 1) (inRange : b.InRange) (fits : Edit.AllFit l.items b.edits) :
    Fitted s l b := by
  have accepted := edits?_of_next sound found current next inRange
  have checked := (edits?_eq_some_iff.1 accepted).2.2.2
  have applied : s.apply l.kind.name b.toJson = s.applyBatch l b := apply_of_edits? accepted
  obtain ⟨core, answer⟩ := applyBatch_spec l checked
  constructor
  · rw [applied, answer, Edit.applyEdits_warnings, Edit.warnings_of_fitting fits]
    exact ⟨_, rfl⟩
  · refine ⟨{ l with
        items := (applyEdits l.items b.edits).1
        window := editedWindow l.window (applyEdits l.items b.edits).2.delta }, ?_,
      kind_editedWindow l.window _, applyEdits_items l.items b.edits⟩
    rw [applied, find?, show (s.applyBatch l b).1.lists = _ from congrArg Core.lists core,
      editedCore, Registry.find?_modify_self, show s.lists.find? b.listId = some l from found]
    rfl
  · rw [applied, version?, show (s.applyBatch l b).1.versions = _ from congrArg Core.versions core,
      editedCore, current?_acceptedVersions (by simpa using checkVersion_eq_ok_iff.1 checked)]
    rfl

end ListSync.Session
