import ListSync.Proofs.Replay
import ListSync.Proofs.Session.Effect
import ListSync.Proofs.Session.Refusal

/-!
# The changes of a session lead a display along

A move records changes for the display. `Announces` says that a display which carries them out for a
list that it shows as it was before the move, with new content from the list as it is after the
move, shows the list as it is after the move; in particular a list for which nothing is recorded
stays as it is. `announces_step` proves this of each move, and `changes_lead` of all runs.
-/

namespace ListSync.Session

variable {s next : Session} {m : Move} {listId : ListId}

/-! ## Carrying out recorded changes -/

/-- Carry out the changes recorded for a list, `target` being its items after the move. -/
def carryOut (listId : ListId) (target shown : List Item) (records : List ListChange) :
    Option (List Item) :=
  (records.filter (·.listId = listId)).foldlM (fun shown c => c.diff.replay? target shown) shown

/-- The changes that tell of a difference in a list, none if there is no difference. -/
def telling (listId : ListId) (diff : Diff) : List ListChange :=
  if diff.isEmpty then [] else [⟨listId, diff⟩]

/-- A display that carries out the told difference shows the list as it is. -/
theorem carryOut_telling {diff : Diff} {target shown : List Item}
    (h : diff.replay? target shown = some target) :
    carryOut listId target shown (telling listId diff) = some target := by
  unfold carryOut telling
  split
  · rename_i empty
    -- nothing happens, so what is shown is the target already
    cases diff with
    | replace n => cases empty
    | changes cs =>
      obtain rfl := List.isEmpty_iff.1 empty
      exact h
  · simpa using h

/-- A display of another list carries out nothing. -/
theorem carryOut_telling_other {other : ListId} (apart : other ≠ listId) (diff : Diff)
    (target shown : List Item) :
    carryOut other target shown (telling listId diff) = some shown := by
  unfold carryOut telling
  split
  · rfl
  · rw [List.filter_cons_of_neg (by simpa using apart.symm)]
    rfl

/-- Changes lead from the items that lists have in one session to those they have in another. -/
def Announces (s next : Session) (records : List ListChange) : Prop :=
  ∀ listId l, s.find? listId = some l → ∃ l', next.find? listId = some l'
    ∧ carryOut listId l'.items l.items records = some l'.items

/-- Where the items of no list change, there is nothing to announce. -/
theorem announces_nothing (same : ∀ listId, (next.find? listId).map (·.items)
    = (s.find? listId).map (·.items)) : Announces s next [] := by
  intro listId l found
  have items := same listId
  rw [found, Option.map_some, Option.map_eq_some_iff] at items
  obtain ⟨l', found', items⟩ := items
  exact ⟨l', found', by rw [items]; rfl⟩

/-- A change of one list is announced by a difference that leads to its new items. -/
theorem announces_telling (sound : s.core.Sound) {l : LoadedList} {f : LoadedList → LoadedList}
    {diff : Diff} (found : s.find? listId = some l)
    (lists : next.lists = s.lists.modify listId f)
    (leads : diff.replay? (f l).items l.items = some (f l).items) :
    Announces s next (telling listId diff) := by
  have after (other : ListId) : next.find? other
      = if other = listId then (s.find? other).map f else s.find? other := by
    rw [find?, lists]
    exact sound.lists.find?_modify ..
  intro other l' found'
  by_cases own : other = listId
  · subst own
    obtain rfl := Option.some.inj (found.symm.trans found')
    exact ⟨f l, by rw [after, if_pos rfl, found, Option.map_some], carryOut_telling leads⟩
  · exact ⟨l', by rw [after, if_neg own, found'], carryOut_telling_other own ..⟩

/-! ## Updates -/

/-- The changes that tell of an update, by what was answered. -/
def tellingOf : Except Rejection Applied → List ListChange
  | .ok applied => telling applied.listId applied.diff
  | .error _ => []

/-- To publish a difference records it, unless it is empty. -/
theorem changes_publish (s : Session) (listId : ListId) (diff : Diff) :
    (s.publish listId diff).changes = s.changes ++ telling listId diff := by
  unfold publish telling
  split
  · exact (List.append_nil _).symm
  · rfl

/-- To note a version records no change. -/
theorem changes_acceptVersion (s : Session) (listId : ListId) (v : Option Version) :
    (s.acceptVersion listId v).changes = s.changes := by cases v <;> rfl

/-- To report a rejection records no change. -/
theorem changes_reject (s : Session) (payload : Json) (why : Rejection) :
    (s.reject payload why).changes = s.changes := by rw [reject_eq]

/-- A batch records the difference that it answers with. -/
theorem changes_applyBatch (s : Session) (l : LoadedList) (b : Batch) :
    (s.applyBatch l b).1.changes = s.changes ++ tellingOf (s.applyBatch l b).2 := by
  unfold applyBatch
  split
  · exact (List.append_nil _).symm
  · dsimp only
    rw [changes_publish, changes_acceptVersion]
    rfl

/-- An answered range records the difference that it answers with. -/
theorem changes_applyRange (s : Session) (l : LoadedList) (a : RangeAnswer) :
    (s.applyRange l a).1.changes = s.changes ++ tellingOf (s.applyRange l a).2 := by
  unfold applyRange
  split
  · exact (List.append_nil _).symm
  · dsimp only
    split
    · exact (List.append_nil _).symm
    · split
      · exact (List.append_nil _).symm
      · dsimp only
        rw [changes_publish, changes_acceptVersion]
        rfl

/-- An answered page records the difference that it answers with. -/
theorem changes_applyPage (s : Session) (l : LoadedList) (a : PageAnswer) :
    (s.applyPage l a).1.changes = s.changes ++ tellingOf (s.applyPage l a).2 := by
  unfold applyPage
  split
  · exact (List.append_nil _).symm
  · dsimp only
    split
    · exact (List.append_nil _).symm
    · split
      · exact (List.append_nil _).symm
      · dsimp only
        rw [changes_publish, changes_acceptVersion]
        rfl

/-- An update that is accepted records the difference that is answered, any other one nothing. -/
theorem changes_apply (s : Session) (kindName : String) (payload : Json) :
    (s.apply kindName payload).1.changes
      = s.changes ++ tellingOf (s.apply kindName payload).2 := by
  -- what follows a readable update records changes itself; a report afterwards adds none
  have dispatched (kind : Kind) (update : Update) : (s.dispatch kind update).1.changes
      = s.changes ++ tellingOf (s.dispatch kind update).2 := by
    unfold dispatch
    split
    · exact (List.append_nil _).symm
    · cases update with
      | batch b => exact changes_applyBatch ..
      | range a => exact changes_applyRange ..
      | page a => exact changes_applyPage ..
  unfold apply
  split
  · exact (List.append_nil _).symm
  · split
    · rw [changes_reject]
      exact (List.append_nil _).symm
    · rename_i kind update _
      have changes := dispatched kind update
      split
      · rename_i h
        rwa [h] at changes
      · rename_i h
        rw [h] at changes
        rw [changes_reject]
        exact changes

/-- The difference that a page makes leads from the items before to those after. -/
theorem replay_pagedDiff (d : Direction) (items page : List Item) :
    (pagedDiff d items page).replay? (pagedItems d items page) items
      = some (pagedItems d items page) := by
  cases d with
  | forward => simpa [pagedDiff, pagedItems, extend] using replay_extend items [] page
  | backward => simpa [pagedDiff, pagedItems, extend] using replay_extend items page []

/-- What an update does to the items is told by what it answers. -/
theorem announces_outcome (sound : s.core.Sound) {u : QueuedUpdate}
    {answer : Except Rejection Applied} (h : Outcome s u next answer) :
    Announces s next (tellingOf answer) := by
  -- a window has no part in what is shown
  have settled {r : Request} {l : LoadedList} {window : Window} {why : Rejection}
      (found : s.find? r.listId = some l) :
      Announces s ((s.settleKeeping r window).reject u.payload why) [] := by
    have lists : ((s.settleKeeping r window).reject u.payload why).lists
        = s.lists.modify r.listId fun l => { l with window } :=
      congrArg Core.lists (core_reject ..)
    exact announces_telling sound found lists
      (show (Diff.changes []).replay? l.items l.items = some l.items from rfl)
  cases h with
  | refused why _ _ =>
    refine announces_nothing ?_
    intro listId
    rw [find?, show (s.reject u.payload why).lists = s.lists from
      congrArg Core.lists (core_reject ..)]
    rfl
  | edited accepted core =>
    obtain ⟨-, found, -⟩ := edits?_eq_some_iff.1 accepted
    exact announces_telling sound found (congrArg Core.lists core) (replay_applyEdits ..)
  | merged answered _ _ _ core =>
    exact announces_telling sound answered.found (congrArg Core.lists core) (replay_extend ..)
  | detached answered _ _ _ => exact settled answered.found
  | joined answered _ _ core =>
    exact announces_telling sound answered.found (congrArg Core.lists core) (replay_pagedDiff ..)
  | mispaged answered _ _ _ => exact settled answered.found

/-! ## All moves -/

/-- The changes that a move records. -/
def Move.records (s : Session) : Move → List ListChange
  | .takeChanges => []
  | m => (s.step m).changes.drop s.changes.length

/-- A move records changes behind those that wait, and they tell what it does to the items. -/
structure Records (s : Session) (m : Move) : Prop where
  waiting : m ≠ .takeChanges → (s.step m).changes = s.changes ++ m.records s
  announces : Announces s (s.step m) (m.records s)

/-- A move records what stands behind the changes that waited before it. -/
theorem records_of_append {records : List ListChange} (other : m ≠ .takeChanges)
    (changes : (s.step m).changes = s.changes ++ records)
    (announces : Announces s (s.step m) records) : Records s m := by
  have same : m.records s = records := by
    have dropped : (s.step m).changes.drop s.changes.length = records := by
      rw [changes, List.drop_left]
    cases m <;> first | exact dropped | exact absurd rfl other
  rw [← same] at changes announces
  exact ⟨fun _ => changes, announces⟩

/-- A move that leaves items and changes alone records nothing. -/
theorem records_of_same (other : m ≠ .takeChanges) (changes : (s.step m).changes = s.changes)
    (items : ∀ listId, ((s.step m).find? listId).map (·.items)
      = (s.find? listId).map (·.items)) : Records s m :=
  records_of_append other (changes.trans (List.append_nil _).symm) (announces_nothing items)

/-- A move that leaves lists and changes alone records nothing. -/
theorem records_of_core (other : m ≠ .takeChanges) (changes : (s.step m).changes = s.changes)
    (core : (s.step m).core = s.core) : Records s m := by
  refine records_of_same other changes ?_
  intro listId
  exact congrArg (fun c : Core => (c.lists.find? listId).map (·.items)) core

/-- A move that does no more than to ask for items records nothing. -/
theorem records_of_still (other : m ≠ .takeChanges) (still : (s.step m).still = s.still) :
    Records s m := by
  refine records_of_same other (congrArg changes still : (s.step m).still.changes = _) ?_
  intro listId
  have bare : (s.step m).still.find? listId = s.still.find? listId := by rw [still]
  have items (s : Session) : (s.find? listId).map (·.items)
      = (s.still.find? listId).map (·.items) := by
    show _ = (s.lists.bare.find? listId).map (·.items)
    rw [s.lists.find?_bare, Option.map_map]
    rfl
  rw [items, items s, bare]

/-- A move that hands over an update records what tells of it. -/
theorem records_of_update {u : QueuedUpdate} (sound : s.core.Sound)
    (handed : m.update? s = some u) : Records s m := by
  obtain ⟨inbox, same⟩ := step_of_update? handed
  have changes : (s.step m).changes
      = s.changes ++ tellingOf (s.apply u.kindName u.payload).2 := by
    rw [same]
    exact s.changes_apply u.kindName u.payload
  refine records_of_append (by rintro rfl; cases handed) changes ?_
  have announces := announces_outcome sound (outcome_apply s u)
  rw [same]
  exact announces

/-- To take in a list that is already there records the replacement of all its items. -/
theorem changes_install (s : Session) (list : LoadedList) (version : Option Version) :
    (s.install list version).1.changes = s.changes
      ++ if (s.find? list.id).isSome then telling list.id (.replace list.items.length)
        else [] := by
  unfold install installBy
  simp only [s.lists.replaced_insert]
  rw [show s.find? list.id = s.lists.find? list.id from rfl]
  split
  · rw [changes_publish]
  · exact (List.append_nil _).symm

/-- A list that is registered anew is announced as a replacement. -/
theorem records_register (sound : s.core.Sound) (kindName : String) (payload : Json) :
    Records s (.register kindName payload) := by
  cases unfinished : s.finished with
  | true =>
    have same : s.step (.register kindName payload) = s := by
      show (s.register kindName payload).1 = s
      rw [register, registerBy, if_pos unfinished]
    exact records_of_still (by simp) (congrArg still same)
  | false =>
    cases read : readList kindName payload with
    | error why =>
      have next : s.step (.register kindName payload) = s.reject payload why := by
        show (s.register kindName payload).1 = _
        rw [register, registerBy, if_neg (by simp [unfinished]), read]
      refine records_of_core (by simp) ?_ ?_
      · rw [next, changes_reject]
      · rw [next, core_reject]
    | ok listVersion =>
      obtain ⟨list, version⟩ := listVersion
      have next : s.step (.register kindName payload) = (s.install list version).1 :=
        congrArg Prod.fst (register_of_read unfinished read)
      have after := find?_install sound list version
      have changes := s.changes_install list version
      rw [← next] at after changes
      refine records_of_append (by simp) changes ?_
      intro other l found
      by_cases own : other = list.id
      · subst own
        refine ⟨list, by rw [after, if_pos rfl], ?_⟩
        rw [found, Option.isSome_some, if_pos rfl]
        exact carryOut_telling (if_pos rfl)
      · refine ⟨l, by rw [after, if_neg own, found], ?_⟩
        split
        · exact carryOut_telling_other own ..
        · rfl

/-- A move tells all that it does to the items, unless it ends the session. -/
theorem records_step (sound : s.core.Sound) (unfinished : (s.step m).finished = false) :
    Records s m := by
  cases m with
  | register kindName payload => exact records_register sound kindName payload
  | apply kindName payload => exact records_of_update sound rfl
  | deliver =>
    cases h : s.inbox with
    | nil => exact records_of_still (by simp) (congrArg still (deliver_of_nil h))
    | cons u rest => exact records_of_update sound (by rw [Move.update?, h, List.head?_cons])
  | takeChanges => exact ⟨fun h => absurd rfl h, announces_nothing fun _ => rfl⟩
  -- a finished session has no lists left, so the hypothesis excludes this move
  | finish =>
    cases ended : s.finished with
    | true =>
      have same : s.step .finish = s := if_pos ended
      rw [same, ended] at unfinished
      cases unfinished
    | false =>
      have after : (s.step .finish).finished = true := by
        show s.finish.finished = true
        rw [finish, if_neg (by simp [ended])]
      rw [after] at unfinished
      cases unfinished
  | ensureIndex listId i inRange => exact records_of_still (by simp) (s.still_ensureIndex listId i)
  | ensurePosition listId position =>
    exact records_of_still (by simp) (s.still_ensurePosition listId position)
  | fetchPage listId d => exact records_of_still (by simp) (s.still_fetchPage listId d)
  | send kindName payload =>
    refine records_of_core (by simp) ?_ (core_send ..)
    show (s.send kindName payload).1.changes = _
    unfold send
    split <;> rfl
  | sendText kindName text =>
    refine records_of_core (by simp) ?_ (core_sendText ..)
    show (s.sendText kindName text).1.changes = _
    unfold sendText send
    split
    · rfl
    · split <;> rfl
  | _ => exact records_of_core (by simp) rfl rfl

/-! ## All along a run -/

/-- The loaded items of a list, none if there is no such list. -/
def itemsOf (s : Session) (listId : ListId) : List Item :=
  ((s.find? listId).map (·.items)).getD []

/-- Carry out all changes that are recorded for a list along a run, each with new content from the
list as it is right after the move. There is no result if a position does not exist when it is
reached, or if a replacement announces another number of items than there are. -/
def carryOutAll (s : Session) (listId : ListId) (shown : List Item) :
    List Move → Option (List Item)
  | [] => some shown
  | m :: moves =>
    (carryOut listId ((s.step m).itemsOf listId) shown (m.records s)).bind fun shown =>
      (s.step m).carryOutAll listId shown moves

/-- The changes that are recorded along a run. -/
def recorded (s : Session) : List Move → List ListChange
  | [] => []
  | m :: moves => m.records s ++ (s.step m).recorded moves

/-- The changes that the display takes along a run. -/
def takenChanges (s : Session) : List Move → List ListChange
  | [] => []
  | .takeChanges :: moves => s.changes ++ (s.step .takeChanges).takenChanges moves
  | m :: moves => (s.step m).takenChanges moves

/-- What is recorded along a run leads a display of a list from its first items to its last. -/
structure Leads (s : Session) (listId : ListId) (moves : List Move) : Prop where
  /-- All changes can be carried out, and what is shown in the end are the items of the list. -/
  shown : s.carryOutAll listId (s.itemsOf listId) moves = some ((s.run moves).itemsOf listId)
  /-- A move that records nothing for the list leaves its items. -/
  silent : ∀ before m later, moves = before ++ m :: later →
    (∀ c ∈ m.records (s.run before), c.listId ≠ listId) →
    (s.run (before ++ [m])).itemsOf listId = (s.run before).itemsOf listId
  /-- A replacement announces the number of items that there are after the move. -/
  replaced : ∀ before m later n, moves = before ++ m :: later →
    ⟨listId, .replace n⟩ ∈ m.records (s.run before) →
    n = ((s.run (before ++ [m])).itemsOf listId).length
  /-- What is recorded waits until the display takes it. -/
  queued : s.takenChanges moves ++ (s.run moves).changes = s.changes ++ s.recorded moves

/-- What the display has taken, with what waits, is all that has been recorded. -/
theorem takenChanges_append (sound : s.core.Sound) {moves : List Move}
    (unfinished : (s.run moves).finished = false) :
    s.takenChanges moves ++ (s.run moves).changes = s.changes ++ s.recorded moves := by
  induction moves generalizing s with
  | nil => exact (List.append_nil _).symm
  | cons m moves ih =>
    have records := records_step (m := m) sound (unfinished_of_run unfinished)
    have rest := ih (effects_step sound m).sound unfinished
    have other (h : m ≠ .takeChanges) :
        (s.step m).takenChanges moves ++ ((s.step m).run moves).changes
          = s.changes ++ (m.records s ++ (s.step m).recorded moves) := by
      rw [rest, records.waiting h, List.append_assoc]
    cases m with
    | takeChanges =>
      show s.changes ++ (s.step .takeChanges).takenChanges moves ++ _ = s.changes ++ ([] ++ _)
      rw [List.append_assoc, run_cons, rest]
      rfl
    | _ => exact other (by simp)

/-- A display that carries out the changes of each move shows the items after the run. -/
theorem carryOutAll_run (sound : s.core.Sound) {l : LoadedList}
    (found : s.find? listId = some l) {moves : List Move}
    (unfinished : (s.run moves).finished = false) :
    s.carryOutAll listId l.items moves = some ((s.run moves).itemsOf listId)
      ∧ ∃ l', (s.run moves).find? listId = some l' := by
  induction moves generalizing s l with
  | nil => exact ⟨by rw [carryOutAll, run_nil, itemsOf, found]; rfl, l, found⟩
  | cons m moves ih =>
    have records := records_step (m := m) sound (unfinished_of_run unfinished)
    obtain ⟨l', found', carried⟩ := records.announces listId l found
    obtain ⟨rest, last⟩ := ih (effects_step sound m).sound found' unfinished
    refine ⟨?_, last⟩
    have items : (s.step m).itemsOf listId = l'.items := by
      rw [itemsOf, found']
      rfl
    rw [carryOutAll, items, carried]
    exact rest

/-- A replacement among changes that lead to a list names how many items that has. -/
theorem length_of_carryOut {target shown shown' : List Item} {records : List ListChange} {n : Nat}
    (h : carryOut listId target shown records = some shown')
    (mem : ⟨listId, .replace n⟩ ∈ records) : n = target.length := by
  have own : ⟨listId, .replace n⟩ ∈ records.filter (·.listId = listId) :=
    List.mem_filter.2 ⟨mem, by simp⟩
  unfold carryOut at h
  generalize records.filter (·.listId = listId) = changes at h own
  induction changes generalizing shown with
  | nil => cases own
  | cons c changes ih =>
    rw [List.foldlM_cons] at h
    obtain ⟨next, first, rest⟩ := Option.bind_eq_some_iff.1 h
    rcases List.mem_cons.1 own with rfl | later
    · -- a replacement of another length could not be carried out
      by_contra apart
      rw [show Diff.replay? target shown (.replace n) = none from if_neg apart] at first
      cases first
    · exact ih rest later

/-- The changes that are recorded for a list lead a display from the items that it has at any time,
such as right after it is registered for the first time, to those that it has later on. -/
theorem changes_lead (reachable : Reachable s) {l : LoadedList} (found : s.find? listId = some l)
    {moves : List Move} (unfinished : (s.run moves).finished = false) : Leads s listId moves := by
  -- what is known of a move in the middle
  have middle {before later : List Move} {m : Move} (h : moves = before ++ m :: later) :
      ∃ l l' : LoadedList, (s.run before).itemsOf listId = l.items
        ∧ (s.run (before ++ [m])).itemsOf listId = l'.items
        ∧ carryOut listId l'.items l.items (m.records (s.run before)) = some l'.items := by
    subst h
    rw [run_append, run_cons] at unfinished
    have here := unfinished_of_run unfinished
    have sound := (reachable.run before).sound
    obtain ⟨-, l, found⟩ := carryOutAll_run reachable.sound found (unfinished_of_step here)
    obtain ⟨l', found', carried⟩ := (records_step sound here).announces listId l found
    refine ⟨l, l', by rw [itemsOf, found]; rfl, ?_, carried⟩
    rw [run_append, itemsOf, run_cons, run_nil, found']
    rfl
  refine ⟨?_, ?_, ?_, takenChanges_append reachable.sound unfinished⟩
  · rw [itemsOf, found]
    exact (carryOutAll_run reachable.sound found unfinished).1
  · intro before m later h others
    obtain ⟨l, l', items, items', carried⟩ := middle h
    have none : (m.records (s.run before)).filter (·.listId = listId) = [] := by
      rw [List.filter_eq_nil_iff]
      intro c mem
      simpa using others c mem
    rw [carryOut, none] at carried
    rw [items, items']
    exact (Option.some.inj carried).symm
  · intro before m later n h mem
    obtain ⟨l, l', -, items', carried⟩ := middle h
    rw [items']
    exact length_of_carryOut carried mem

/-- The first items of a list. -/
def firstItems (items : List Item) : Move :=
  .register "dynamicIndexList" (.obj [("listId", .str "l"), ("listVersion", Json.ofNat 0),
    ("startIndex", Json.ofInt 1), ("items", .arr items)])

/-- A list is edited, more of it is fetched, the display takes the changes, and the list is made
known anew. -/
def changingRun : List Move :=
  [.apply "dynamicIndexList" (.obj [("listId", .str "l"), ("listVersion", Json.ofNat 1),
      ("operations", .arr ([Edit.delete 0, .insert 1 (.str "c"), .set 0 (.str "B")].map
        Edit.toJson))]),
    .ensureIndex "l" 3 (by decide), .apply "dynamicIndexList" (.obj [("listId", .str "l"),
      ("correlationToken", .str "101"), ("startIndex", Json.ofInt 3),
      ("items", .arr [.str "z"])]),
    .takeChanges, firstItems [.str "n"]]

/-- From the first registration on, the display is led through edits, fetched items and a
replacement. -/
theorem leads_changingRun :
    (({} : Session).step (firstItems [.str "a", .str "b"])).recorded changingRun
      = [⟨"l", .changes [.remove 0, .insert 1, .update 0]⟩, ⟨"l", .changes [.insert 2]⟩,
        ⟨"l", .replace 1⟩]
    ∧ Leads (({} : Session).step (firstItems [.str "a", .str "b"])) "l" changingRun :=
  ⟨by decide, changes_lead (reachable_default.step _)
    (show _ = some ⟨"l", [.str "a", .str "b"], .index ⟨none, none, 1, 2, []⟩⟩ by decide)
    (by decide)⟩

end ListSync.Session
