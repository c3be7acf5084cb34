import ListSync.Proofs.Registry
import ListSync.Proofs.Session.Outcome
import ListSync.Proofs.Window

/-!
# What a move does to one list

A session knows of a list what is loaded of it and which requests are outstanding for it; that is
its `Entry`. `Effect` lists all that a move can do to the entry of a list, and `effects_step` says
that nothing else happens, as long as names, handles and tokens of the session agree (`Core.Sound`),
which every move keeps. Laws about single lists follow by one look at each effect.
-/

namespace ListSync.Session

/-- What a session knows of one list. -/
structure Entry where
  list? : Option LoadedList
  /-- The outstanding requests for the list, in the order in which they were issued. -/
  requests : List Request

/-- What a session knows of a list. -/
def Core.entry (c : Core) (listId : ListId) : Entry :=
  ⟨c.lists.find? listId, c.requests.pendingFor listId⟩

/-- What a session knows of a list. -/
def entry (s : Session) (listId : ListId) : Entry := s.core.entry listId

/-- Names, handles and tokens agree, and nothing is left of a session that has finished. -/
structure Core.Sound (c : Core) : Prop where
  lists : c.lists.Sound
  requests : c.requests.Sound
  ended : c.finished = true → ∀ listId, c.lists.find? listId = none

/-- A session that knows a list has not finished. -/
theorem Core.Sound.unfinished {c : Core} (sound : c.Sound) {listId : ListId} {l : LoadedList}
    (found : c.lists.find? listId = some l) : c.finished = false := by
  cases ended : c.finished with
  | false => rfl
  | true =>
    rw [sound.ended ended listId] at found
    cases found

/-! ## Changes of one list -/

section

variable {c : Core} {listId : ListId} {f : LoadedList → LoadedList} {t : RequestTable}

/-- A change of one list, of the requests and of the versions keeps names, handles and tokens in
agreement. -/
theorem Core.Sound.change (sound : c.Sound) (keeps : ∀ l, (f l).id = l.id) (requests : t.Sound)
    (versions : Ledger) :
    Core.Sound { c with lists := c.lists.modify listId f, requests := t, versions } where
  lists := sound.lists.modify fun l _ => keeps l
  requests := requests
  ended h other := by
    have gone := sound.ended h other
    show (c.lists.modify listId f).find? other = none
    rw [sound.lists.find?_modify, gone]
    split <;> rfl

/-- What such a change does to the entry of a list, if it touches the requests for that list only.
-/
theorem Core.Sound.entry_change (sound : c.Sound) {l : LoadedList}
    (found : c.lists.find? listId = some l)
    (others : ∀ other, other ≠ listId → t.pendingFor other = c.requests.pendingFor other)
    (versions : Ledger) (other : ListId) :
    Core.entry { c with lists := c.lists.modify listId f, requests := t, versions } other =
      if other = listId then ⟨some (f l), t.pendingFor listId⟩ else c.entry other := by
  simp only [Core.entry, sound.lists.find?_modify]
  by_cases h : other = listId
  · subst h
    rw [if_pos rfl, if_pos rfl, found, Option.map_some]
  · rw [if_neg h, if_neg h, others other h]

end

/-- Tokens of the requests stay in order when ranges behind a batch move along. -/
theorem sound_editedRequests {t : RequestTable} (sound : t.Sound) (listId : ListId)
    (window : Window) (delta : Int) : (editedRequests t listId window delta).Sound := by
  cases window with
  | index w => exact sound.shift listId w.stop delta
  | token w => exact sound

/-- A batch for one list moves no request for another. -/
theorem pendingFor_editedRequests_other (t : RequestTable) {listId other : ListId}
    (apart : other ≠ listId) (window : Window) (delta : Int) :
    (editedRequests t listId window delta).pendingFor other = t.pendingFor other := by
  cases window with
  | index w =>
    rw [editedRequests, t.pendingFor_shift, if_neg apart]
  | token w => rfl

/-! ## Registrations -/

/-- The core once a list is taken in. -/
theorem core_install (s : Session) (list : LoadedList) (version : Option Version) :
    (s.install list version).1.core = { s.core with
      lists := (s.lists.insert list).1
      requests := s.requests.abandon list.id
      versions := match version with
        | some v => s.versions.assign list.id v
        | none => s.versions.forget list.id } := by
  unfold install installBy
  dsimp only
  split
  · rw [core_publish]
    rfl
  · rfl

/-- The list that was taken in is found under its name, and all others as before. -/
theorem find?_install {s : Session} (sound : s.core.Sound) (list : LoadedList)
    (version : Option Version) (listId : ListId) : (s.install list version).1.find? listId
      = if listId = list.id then some list else s.find? listId := by
  have lists : (s.install list version).1.lists = (s.lists.insert list).1 :=
    congrArg Core.lists (core_install s list version)
  rw [find?, lists]
  exact sound.lists.find?_insert list listId

/-- The version of the list that was taken in is the one that came with it, if any did. -/
theorem version?_install (s : Session) (list : LoadedList) (version : Option Version)
    (listId : ListId) : (s.install list version).1.version? listId
      = if listId = list.id then version else s.version? listId := by
  have core := congrArg Core.versions (core_install s list version)
  rw [version?, show (s.install list version).1.versions = _ from core]
  cases version with
  | none => exact Ledger.current?_forget ..
  | some v => exact Ledger.current?_assign ..

/-- The name and the version of the list that a move registers. -/
def Move.registers? (s : Session) : Move → Option (ListId × Option Version)
  | .register kindName payload =>
    if s.finished then none
    else (readList kindName payload).toOption.map fun (list, version) => (list.id, version)
  | _ => none

/-- A move registers a list. -/
def Move.Registers (s : Session) (m : Move) (listId : ListId) : Prop :=
  (m.registers? s).map (·.1) = some listId

instance (s : Session) (m : Move) (listId : ListId) : Decidable (m.Registers s listId) :=
  inferInstanceAs (Decidable (_ = _))

/-- A move registers a list exactly if it hands a first payload that is read as this list to a
session that has not finished. -/
theorem registers?_eq_some_iff {s : Session} {m : Move} {listId : ListId}
    {version : Option Version} :
    m.registers? s = some (listId, version) ↔ ∃ kindName payload list,
      m = .register kindName payload ∧ s.finished = false
        ∧ readList kindName payload = .ok (list, version) ∧ list.id = listId := by
  constructor
  · intro h
    cases m with
    | register kindName payload =>
      simp only [Move.registers?] at h
      split at h
      · simp at h
      · rename_i unfinished
        cases read : readList kindName payload with
        | error why => simp [read, Except.toOption] at h
        | ok listVersion =>
          obtain ⟨own, rfl⟩ : listVersion.1.id = listId ∧ listVersion.2 = version := by
            simpa [read, Except.toOption] using h
          exact ⟨_, _, _, rfl, by simpa using unfinished, read, own⟩
    | _ => cases h
  · rintro ⟨kindName, payload, list, rfl, unfinished, read, rfl⟩
    simp [Move.registers?, unfinished, read, Except.toOption]

/-- A payload that is read as a list is taken in. -/
theorem register_of_read {s : Session} {kindName : String} {payload : Json} {list : LoadedList}
    {version : Option Version} (unfinished : s.finished = false)
    (read : readList kindName payload = .ok (list, version)) :
    s.register kindName payload
      = ((s.install list version).1, .ok (s.install list version).2) := by
  simp only [register, registerBy, install, unfinished, read, Bool.false_eq_true, if_false]

/-- All that can come of a registration. -/
inductive Registration (s : Session) (kindName : String) (payload : Json) :
    Session → Except Rejection Handle → Prop
  /-- It is refused. -/
  | refused (why : Rejection) :
    Registration s kindName payload (s.reject payload why) (.error why)
  /-- The list is taken in. -/
  | installed {p : Listing} {list : LoadedList} (unfinished : s.finished = false)
    (inRange : p.InRange) (read : LoadedList.ofPayload p = .ok list) :
    Registration s kindName payload (s.install list p.version).1 (.ok (s.install list p.version).2)

/-- Nothing else comes of a registration. -/
theorem registration_register (s : Session) (kindName : String) (payload : Json) :
    Registration s kindName payload (s.register kindName payload).1
      (s.register kindName payload).2 := by
  unfold register registerBy
  cases unfinished : s.finished with
  | true => exact .refused .finished
  | false =>
    simp only [Bool.false_eq_true, if_false]
    cases read : readList kindName payload with
    | error why => exact .refused why
    | ok listVersion =>
      obtain ⟨kind, -, h⟩ := bind_eq_ok_iff.1 read
      obtain ⟨p, parsed, h⟩ := bind_eq_ok_iff.1 h
      obtain ⟨list, made, ⟨⟩⟩ := bind_eq_ok_iff.1 h
      exact .installed unfinished (Listing.inRange_of_parse parsed) made

/-! ## Accesses -/

/-- A session apart from the windows of its lists and from what it asks for. -/
def still (s : Session) : Session :=
  { s with lists := s.lists.bare, requests := {}, heard := [], outbox := [] }

section

variable (s : Session) (listId : ListId)

/-- To issue a request changes nothing but what is asked for. -/
theorem still_issue (target : Target) : (s.issue listId target).1.still = s.still := by
  unfold issue
  dsimp only
  split <;> rfl

/-- A change of a window leaves everything else of the session. -/
theorem still_modifyWindow (window : Window) : (s.modifyWindow listId window).still = s.still := by
  simp only [still, modifyWindow, s.lists.bare_modify]

/-- To ask for a range leaves everything but the window and what is asked for. -/
theorem still_fetchRange (range : Span) : (s.fetchRange listId range).1.still = s.still := by
  rw [fetchRange, still_issue]
  split
  · exact s.still_modifyWindow listId _
  · rfl

/-- To ask for several ranges leaves as much as to ask for one. -/
theorem still_fetchRanges (ranges : List Span) :
    (s.fetchRanges listId ranges).1.still = s.still := by
  induction ranges generalizing s with
  | nil => rfl
  | cons range ranges ih => exact (ih _).trans (s.still_fetchRange listId range)

/-- An access to an index leaves everything but the window and what is asked for. -/
theorem still_ensureIndex (i : Int) : (s.ensureIndex listId i).1.still = s.still := by
  unfold ensureIndex
  split
  · rfl
  · split
    · rfl
    · split
      · rfl
      · exact still_fetchRanges ..

/-- To ask for the next page leaves everything but the window and what is asked for. -/
theorem still_fetchPage (d : Direction) : (s.fetchPage listId d).1.still = s.still := by
  unfold fetchPage
  split
  · rfl
  · split
    · rfl
    · split
      · rfl
      · split
        · rfl
        · exact ((s.modifyWindow listId _).still_issue ..).trans (s.still_modifyWindow ..)

/-- To ask for several pages leaves as much as to ask for one. -/
theorem still_fetchPages (ds : List Direction) : (s.fetchPages listId ds).1.still = s.still := by
  induction ds generalizing s with
  | nil => rfl
  | cons d ds ih =>
    have first := s.still_fetchPage listId d
    unfold fetchPages
    cases hf : s.fetchPage listId d with
    | mk next answer =>
      rw [hf] at first
      cases answer with
      | error why => exact first
      | ok token =>
        have rest := ih next
        dsimp only
        cases hr : next.fetchPages listId ds with
        | mk last answer =>
          rw [hr] at rest
          cases answer with
          | error why => exact rest.trans first
          | ok tokens => exact rest.trans first

/-- An access issues requests and says so in the window; nothing else happens. -/
theorem still_ensurePosition (position : Nat) :
    (s.ensurePosition listId position).1.still = s.still := by
  unfold ensurePosition
  split
  · rfl
  · split
    · rfl
    · split
      · exact still_ensureIndex ..
      · exact still_fetchPages ..

end

/-- Requests for one list were issued, and its window says so; nothing else has changed. -/
structure Asked (s : Session) (listId : ListId) (window : Window) (rs : List Request)
    (next : Session) : Prop where
  sound : next.core.Sound
  policy : next.policy = s.policy
  finished : next.finished = s.finished
  versions : next.versions = s.versions
  entry : ∀ other, next.entry other =
    if other = listId then
      ⟨(s.find? listId).map fun l => { l with window }, (s.entry listId).requests ++ rs⟩
    else s.entry other

section

variable {s next last : Session} {listId : ListId} {l : LoadedList}

/-- Nothing was asked for, and nothing has changed. -/
theorem Asked.refl (sound : s.core.Sound) (found : s.find? listId = some l) :
    Asked s listId l.window [] s where
  sound := sound
  policy := rfl
  finished := rfl
  versions := rfl
  entry other := by
    by_cases h : other = listId
    · subst h
      rw [if_pos rfl, found, Option.map_some, List.append_nil]
      show Entry.mk (s.find? other) _ = _
      rw [found]
      rfl
    · rw [if_neg h]

/-- Requests that are issued one after the other are issued together. -/
theorem Asked.trans {window window' : Window} {rs rs' : List Request}
    (h : Asked s listId window rs next) (h' : Asked next listId window' rs' last) :
    Asked s listId window' (rs ++ rs') last where
  sound := h'.sound
  policy := h'.policy.trans h.policy
  finished := h'.finished.trans h.finished
  versions := h'.versions.trans h.versions
  entry other := by
    have here := h.entry listId
    rw [if_pos rfl] at here
    have found : next.find? listId = (s.find? listId).map fun l => { l with window } :=
      congrArg Entry.list? here
    rw [h'.entry other, h.entry other]
    by_cases own : other = listId
    · rw [if_pos own, if_pos own, here, found, Option.map_map, List.append_assoc]
      rfl
    · rw [if_neg own, if_neg own, if_neg own]

/-- The list is still there, with the window that says what is in flight. -/
theorem Asked.found {window : Window} {rs : List Request} (h : Asked s listId window rs next)
    (found : s.find? listId = some l) : next.find? listId = some { l with window } := by
  have here := h.entry listId
  rw [if_pos rfl, found] at here
  exact congrArg Entry.list? here

/-- A request is noted as outstanding when it is issued. -/
theorem core_issue (s : Session) (listId : ListId) (target : Target) :
    (s.issue listId target).1.core = { s.core with
      requests := s.requests.issue.1.add ⟨s.requests.issue.2, listId, target⟩ } := by
  unfold issue
  dsimp only
  split <;> rfl

/-- A request that is issued once the window says so is asked for. -/
theorem asked_issue (sound : s.core.Sound) (found : s.find? listId = some l) (window : Window)
    (target : Target) :
    Asked s listId window [⟨s.requests.issue.2, listId, target⟩]
      ((s.modifyWindow listId window).issue listId target).1 := by
  have core := core_issue (s.modifyWindow listId window) listId target
  have table := sound.requests.add_issue
    (show (Request.mk s.requests.issue.2 listId target).token = s.requests.issue.2 from rfl)
  have pending := sound.requests.pendingFor_add_issue
    (show (Request.mk s.requests.issue.2 listId target).token = s.requests.issue.2 from rfl)
  have others (other : ListId) (apart : other ≠ listId) := (pending other).trans (if_neg apart)
  have keeps (l : LoadedList) : ({ l with window } : LoadedList).id = l.id := rfl
  constructor
  · rw [core]
    exact sound.change keeps table s.versions
  · exact congrArg Core.policy core
  · exact congrArg Core.finished core
  · exact congrArg Core.versions core
  · intro other
    rw [entry, core]
    refine (sound.entry_change found others s.versions other).trans ?_
    rw [found, pending listId, if_pos rfl]
    rfl

/-- To ask for a range marks it and issues one request for it. -/
theorem asked_fetchRange {w : IndexWindow} (sound : s.core.Sound) (found : s.find? listId = some l)
    (loaded : l.window = .index w) (range : Span) :
    Asked s listId (.index (w.mark range))
      [⟨s.requests.issue.2, listId, .range range.start range.length⟩]
      (s.fetchRange listId range).1 := by
  have asked := asked_issue sound found (.index (w.mark range)) (.range range.start range.length)
  unfold fetchRange
  rw [found, Option.map_some, loaded]
  exact asked

/-- The token of a range that is asked for is the next one. -/
theorem token_fetchRange {w : IndexWindow} (found : s.find? listId = some l)
    (loaded : l.window = .index w) (range : Span) :
    (s.fetchRange listId range).2 = s.requests.issue.2 := by
  unfold fetchRange
  rw [found, Option.map_some, loaded]
  rfl

/-- Ranges that are asked for are all marked as in flight, and each has a request of its own, whose
token is answered. -/
theorem asked_fetchRanges {w : IndexWindow} (sound : s.core.Sound)
    (found : s.find? listId = some l) (loaded : l.window = .index w) (ranges : List Span) :
    ∃ rs, rs.map (·.target) = ranges.map (fun range => Target.range range.start range.length)
      ∧ (s.fetchRanges listId ranges).2 = rs.map (·.token)
      ∧ Asked s listId (.index { w with inFlight := w.inFlight ++ ranges }) rs
        (s.fetchRanges listId ranges).1 := by
  induction ranges generalizing s l w with
  | nil =>
    have none := Asked.refl sound found
    rw [loaded] at none
    exact ⟨[], rfl, rfl, by rwa [List.append_nil]⟩
  | cons range ranges ih =>
    -- the first range is marked before the others are asked for
    have first := asked_fetchRange sound found loaded range
    have token := token_fetchRange found loaded range
    obtain ⟨rs, targets, tokens, rest⟩ := ih first.sound (first.found found) rfl
    rw [IndexWindow.mark, List.append_assoc] at rest
    refine ⟨_ :: rs, ?_, ?_, first.trans rest⟩
    · rw [List.map_cons, List.map_cons, targets]
    · rw [List.map_cons, ← tokens, ← token]
      rfl

/-- Pages are asked for one after the other: each is the next one in its direction and is not being
fetched, and is marked before the one after it is looked for. -/
inductive Turns : TokenWindow → List Target → TokenWindow → Prop
  | nil (w : TokenWindow) : Turns w [] w
  | cons {w w' : TokenWindow} {d : Direction} {page : String} {targets : List Target}
    (next : w.needsFetch d = some page) (rest : Turns (w.mark page) targets w') :
    Turns w (.page page d :: targets) w'

/-- Pages asked for after other pages are asked for one after the other. -/
theorem Turns.append {w w' w'' : TokenWindow} {targets targets' : List Target}
    (h : Turns w targets w') (h' : Turns w' targets' w'') : Turns w (targets ++ targets') w'' := by
  induction h with
  | nil => exact h'
  | cons next rest ih => exact .cons next (ih h')

/-- The next page of a token list is asked for, or nothing happens. -/
theorem asked_fetchPage {w : TokenWindow} (sound : s.core.Sound) (found : s.find? listId = some l)
    (loaded : l.window = .token w) (d : Direction) :
    ∃ w' rs, Turns w (rs.map (·.target)) w'
      ∧ Asked s listId (.token w') rs (s.fetchPage listId d).1 := by
  have kept : ∃ w' rs, Turns w (rs.map (·.target)) w' ∧ Asked s listId (.token w') rs s :=
    ⟨w, [], .nil w, loaded ▸ Asked.refl sound found⟩
  unfold fetchPage
  cases s.finished with
  | true => exact kept
  | false =>
    simp only [Bool.false_eq_true, if_false]
    rw [findKind_eq_ok_iff.2 ⟨found, by rw [LoadedList.kind, loaded, Window.kind]⟩]
    simp only [loaded]
    cases next : w.needsFetch d with
    | none => exact kept
    | some page =>
      refine ⟨w.mark page, _, ?_, asked_issue sound found _ (.page page d)⟩
      exact .cons next (.nil _)

/-- Pages in several directions are asked for one after the other. -/
theorem asked_fetchPages {w : TokenWindow} (sound : s.core.Sound) (found : s.find? listId = some l)
    (loaded : l.window = .token w) (ds : List Direction) :
    ∃ w' rs, Turns w (rs.map (·.target)) w'
      ∧ Asked s listId (.token w') rs (s.fetchPages listId ds).1 := by
  -- over the directions: each page is marked before the next one is looked for
  induction ds generalizing s l w with
  | nil => exact ⟨w, [], .nil w, loaded ▸ Asked.refl sound found⟩
  | cons d ds ih =>
    obtain ⟨w', rs, pages, first⟩ := asked_fetchPage sound found loaded d
    obtain ⟨w'', rs', pages', rest⟩ := ih first.sound (first.found found) rfl
    have both : Turns w ((rs ++ rs').map (·.target)) w'' :=
      List.map_append ▸ pages.append pages'
    unfold fetchPages
    cases hf : s.fetchPage listId d with
    | mk next answer =>
      rw [hf] at first rest
      cases answer with
      -- a failure on the way leaves what was asked for until then
      | error why => exact ⟨w', rs, pages, first⟩
      | ok token =>
        dsimp only at rest ⊢
        cases hr : next.fetchPages listId ds with
        | mk last answer =>
          rw [hr] at rest
          cases answer with
          | error why => exact ⟨w'', rs ++ rs', both, first.trans rest⟩
          | ok tokens => exact ⟨w'', rs ++ rs', both, first.trans rest⟩

end

/-- The ranges that an access to an index calls for. -/
def planned (s : Session) (listId : ListId) (i : Int) : List Span :=
  if s.finished then []
  else match (s.find? listId).map LoadedList.window with
    | some (.index w) => w.plan s.policy i
    | _ => []

/-- The ranges that a move asks for. -/
def Move.ranges (s : Session) : Move → List Span
  | .ensureIndex listId i _ => s.planned listId i
  | .ensurePosition listId position =>
    match (s.find? listId).map LoadedList.window with
    | some (.index w) => s.planned listId (Index.add w.start (Index.wrapCount position))
    | _ => []
  | _ => []

/-! ## Moves -/

/-- All that a move can do to what a session knows of a list. -/
inductive Effect (s : Session) (m : Move) (listId : ListId) : Entry → Prop
  | kept : Effect s m listId (s.entry listId)
  /-- The session finishes. -/
  | gone : Effect s m listId ⟨none, []⟩
  /-- The list is taken in. -/
  | installed {p : Listing} {l : LoadedList} (inRange : p.InRange)
    (read : LoadedList.ofPayload p = .ok l) : Effect s m listId ⟨some l, []⟩
  /-- A batch is applied to the list. -/
  | edited {u : QueuedUpdate} {l : LoadedList} {b : Batch} (update : m.update? s = some u)
    (accepted : s.edits? u = some (l, b)) (found : s.find? listId = some l)
    (own : b.listId = listId) :
    Effect s m listId
      ⟨some { l with
          items := (applyEdits l.items b.edits).1
          window := editedWindow l.window (applyEdits l.items b.edits).2.delta },
        (editedRequests s.requests listId l.window
          (applyEdits l.items b.edits).2.delta).pendingFor listId⟩
  /-- A fetched range is put to the list. -/
  | merged {u : QueuedUpdate} {l : LoadedList} {r : Request} {a : RangeAnswer}
    {w window : IndexWindow} {asked : Span} {plan : IndexWindow.MergePlan}
    (update : m.update? s = some u) (answered : Answered s u (.range a) l r)
    (own : r.listId = listId) (loaded : l.window = .index w) (range : r.span? = some asked)
    (absorbed : (w.clear asked).absorb asked a.start a.items.length a.minimum a.maximum
      = .ok (plan, window)) :
    Effect s m listId
      ⟨some { l with
          items := a.items.take plan.front.stop ++ l.items ++ a.items.drop plan.back.start
          window := .index window },
        (s.requests.pendingFor listId).erase r⟩
  /-- A fetched range does not fit. -/
  | detached {u : QueuedUpdate} {l : LoadedList} {r : Request} {a : RangeAnswer} {w : IndexWindow}
    {asked : Span} (update : m.update? s = some u) (answered : Answered s u (.range a) l r)
    (own : r.listId = listId) (loaded : l.window = .index w) (range : r.span? = some asked) :
    Effect s m listId
      ⟨some { l with window := .index (w.clear asked) }, (s.requests.pendingFor listId).erase r⟩
  /-- A fetched page is put to the list. -/
  | joined {u : QueuedUpdate} {l : LoadedList} {r : Request} {a : PageAnswer} {w : TokenWindow}
    {d : Direction} (update : m.update? s = some u) (answered : Answered s u (.page a) l r)
    (own : r.listId = listId) (loaded : l.window = .token w) (page : r.target = .page a.page d) :
    Effect s m listId
      ⟨some { l with
          items := pagedItems d l.items a.items
          window := .token ((w.clear a.page).advance d a.next) },
        (s.requests.pendingFor listId).erase r⟩
  /-- A fetched page is another one than was asked for. -/
  | mispaged {u : QueuedUpdate} {l : LoadedList} {r : Request} {a : PageAnswer} {w : TokenWindow}
    {asked : String} {d : Direction} (update : m.update? s = some u)
    (answered : Answered s u (.page a) l r) (own : r.listId = listId)
    (loaded : l.window = .token w) (page : r.target = .page asked d) :
    Effect s m listId
      ⟨some { l with window := .token (w.clear asked) }, (s.requests.pendingFor listId).erase r⟩
  /-- Ranges of the list are asked for. -/
  | fetched {l : LoadedList} {w : IndexWindow} {i : Int} {rs : List Request}
    (inRange : Index.InRange i) (ranges : m.ranges s = w.plan s.policy i)
    (found : s.find? listId = some l) (loaded : l.window = .index w)
    (targets : rs.map (·.target)
      = (w.plan s.policy i).map fun range => .range range.start range.length) :
    Effect s m listId
      ⟨some { l with window := .index { w with inFlight := w.inFlight ++ w.plan s.policy i } },
        s.requests.pendingFor listId ++ rs⟩
  /-- Pages of the list are asked for. -/
  | turned {l : LoadedList} {w w' : TokenWindow} {rs : List Request}
    (found : s.find? listId = some l) (loaded : l.window = .token w)
    (turns : Turns w (rs.map (·.target)) w') :
    Effect s m listId ⟨some { l with window := .token w' }, s.requests.pendingFor listId ++ rs⟩

/-- A move that keeps names, handles and tokens in agreement, with all its effects. -/
structure Effects (s : Session) (m : Move) (next : Session) : Prop where
  sound : next.core.Sound
  effect : ∀ listId, Effect s m listId (next.entry listId)

section

variable {s next : Session} {m : Move}

/-- A move that leaves what a session knows of its lists has the effect of nothing. -/
theorem effects_of_core_eq (sound : s.core.Sound) (h : next.core = s.core) : Effects s m next where
  sound := h ▸ sound
  effect listId := by
    rw [entry, h]
    exact .kept

/-- The effects of a change of one list, of the requests for it and of the versions. -/
theorem effects_of_change (sound : s.core.Sound) {listId : ListId} {l : LoadedList}
    {f : LoadedList → LoadedList} {t : RequestTable} {versions : Ledger}
    (found : s.find? listId = some l)
    (core : next.core = { s.core with
      lists := s.lists.modify listId f, requests := t, versions })
    (keeps : ∀ l, (f l).id = l.id) (requests : t.Sound)
    (others : ∀ other, other ≠ listId → t.pendingFor other = s.requests.pendingFor other)
    (effect : Effect s m listId ⟨some (f l), t.pendingFor listId⟩) : Effects s m next where
  sound := core ▸ sound.change keeps requests versions
  effect other := by
    have after : next.entry other =
        if other = listId then ⟨some (f l), t.pendingFor listId⟩ else s.entry other := by
      rw [entry, core]
      exact sound.entry_change found others versions other
    rw [after]
    by_cases h : other = listId
    · rw [if_pos h, h]
      exact effect
    · rw [if_neg h]
      exact .kept

/-- The effects of a change of one list that settles a request for it. -/
theorem effects_of_settle (sound : s.core.Sound) {r : Request} {l : LoadedList}
    {f : LoadedList → LoadedList} {versions : Ledger} (found : s.find? r.listId = some l)
    (pending : r ∈ s.requests.pending)
    (core : next.core = { s.core with
      lists := s.lists.modify r.listId f, requests := s.requests.settle r.token, versions })
    (keeps : ∀ l, (f l).id = l.id)
    (effect : Effect s m r.listId ⟨some (f l), (s.requests.pendingFor r.listId).erase r⟩) :
    Effects s m next := by
  have table : s.requests.Sound := sound.requests
  refine effects_of_change sound found core keeps (table.settle _) ?_ ?_
  · intro other apart
    rw [table.pendingFor_settle pending, if_neg apart]
  · rw [table.pendingFor_settle pending, if_pos rfl]
    exact effect

/-- What asking for something does to a list is all that it does. -/
theorem effects_of_asked {listId : ListId} {l : LoadedList} {window : Window} {rs : List Request}
    (asked : Asked s listId window rs next) (found : s.find? listId = some l)
    (effect : Effect s m listId
      ⟨some { l with window }, s.requests.pendingFor listId ++ rs⟩) : Effects s m next where
  sound := asked.sound
  effect other := by
    rw [asked.entry other]
    by_cases h : other = listId
    · rw [if_pos h, found, Option.map_some, h]
      exact effect
    · rw [if_neg h]
      exact .kept

end

/-- Pages that are asked for one after the other are pages. -/
theorem Turns.pages {w w' : TokenWindow} {targets : List Target} (h : Turns w targets w') :
    ∀ target ∈ targets, ∃ page d, target = .page page d := by
  induction h with
  | nil => exact fun _ h => absurd h List.not_mem_nil
  | cons next rest ih => exact List.forall_mem_cons.2 ⟨⟨_, _, rfl⟩, ih⟩

/-- What holds of the outstanding requests for a list, and of every request that is planned, holds
of those that are outstanding after a move, if it does not depend on where a request moves. -/
theorem Effect.requests {s : Session} {m : Move} {listId : ListId} {e : Entry}
    (effect : Effect s m listId e) {P : Request → Prop}
    (earlier : ∀ r ∈ s.requests.pendingFor listId, P r)
    (moved : ∀ r start delta, P r → P (r.shift start delta))
    (ranges : ∀ l w i r range, s.find? listId = some l → l.window = .index w → Index.InRange i →
      range ∈ w.plan s.policy i → r.target = .range range.start range.length → P r)
    (pages : ∀ r page d, r.target = .page page d → P r) : ∀ r ∈ e.requests, P r := by
  cases effect with
  | kept => exact earlier
  | gone => exact fun r h => absurd h List.not_mem_nil
  | installed inRange read => exact fun r h => absurd h List.not_mem_nil
  | edited update accepted found own =>
    rename_i u l b
    intro r h
    dsimp only at h
    cases loaded : l.window with
    | token w =>
      rw [loaded] at h
      exact earlier r h
    | index w =>
      rw [loaded, editedRequests, RequestTable.pendingFor_shift, if_pos rfl] at h
      obtain ⟨r', h', rfl⟩ := List.mem_map.1 h
      exact moved r' _ _ (earlier r' h')
  -- an answer settles one request and leaves the others as they are
  | merged | detached | joined | mispaged => exact fun r h => earlier r (List.mem_of_mem_erase h)
  | fetched inRange planned found loaded targets =>
    rename_i l w i rs
    intro r h
    rcases List.mem_append.1 h with old | new
    · exact earlier r old
    · have target := List.mem_map_of_mem (f := (·.target)) new
      rw [targets] at target
      obtain ⟨range, wanted, same⟩ := List.mem_map.1 target
      exact ranges l w i r range found loaded inRange wanted same.symm
  | turned found loaded turns =>
    intro r h
    rcases List.mem_append.1 h with old | new
    · exact earlier r old
    · obtain ⟨page, d, target⟩ := turns.pages _ (List.mem_map_of_mem new)
      exact pages r page d target

/-! ### Updates -/

section

variable {s next : Session} {m : Move} {u : QueuedUpdate}

/-- The effects of an update, whatever comes of it. -/
theorem effects_of_outcome (sound : s.core.Sound) (update : m.update? s = some u)
    {answer : Except Rejection Applied} (h : Outcome s u next answer) : Effects s m next := by
  cases h with
  | refused why plain unsettled => exact effects_of_core_eq sound (core_reject ..)
  | edited accepted core =>
    obtain ⟨-, found, -⟩ := edits?_eq_some_iff.1 accepted
    refine effects_of_change sound found core (fun _ => rfl) ?_ ?_ ?_
    · exact sound_editedRequests sound.requests ..
    · exact fun other apart => pendingFor_editedRequests_other s.requests apart ..
    · exact .edited update accepted found rfl
  | merged answered loaded range absorbed core =>
    exact effects_of_settle sound answered.found answered.pending core (fun _ => rfl)
      (.merged update answered rfl loaded range absorbed)
  | detached answered loaded range absorbed =>
    exact effects_of_settle sound answered.found answered.pending (core_reject ..) (fun _ => rfl)
      (.detached update answered rfl loaded range)
  | joined answered loaded page core =>
    exact effects_of_settle sound answered.found answered.pending core (fun _ => rfl)
      (.joined update answered rfl loaded page)
  | mispaged answered loaded page other =>
    exact effects_of_settle sound answered.found answered.pending (core_reject ..) (fun _ => rfl)
      (.mispaged update answered rfl loaded page)

/-- A move that hands an update to a session applies it, and has to do with what waits at most. -/
theorem step_of_update? (update : m.update? s = some u) :
    ∃ inbox, s.step m = (s.apply u.kindName u.payload).1.withInbox inbox := by
  cases m with
  | apply kindName payload =>
    cases update
    exact ⟨(s.apply kindName payload).1.inbox, rfl⟩
  | deliver =>
    cases h : s.inbox with
    | nil => simp [Move.update?, h] at update
    | cons v rest =>
      obtain rfl : v = u := by simpa [Move.update?, h] using update
      refine ⟨rest, ?_⟩
      show s.deliver = _
      unfold deliver
      rw [h]
      exact congrArg Prod.fst (s.apply_withInbox rest v.kindName v.payload)
  | _ => cases update

/-- A move that hands over an update leaves the core that the update leads to. -/
theorem core_of_update? (update : m.update? s = some u) :
    (s.step m).core = (s.apply u.kindName u.payload).1.core := by
  obtain ⟨inbox, same⟩ := step_of_update? update
  rw [same]
  rfl

/-- A move that hands an update to a session has one of the listed effects on each list. -/
theorem effects_of_update (sound : s.core.Sound) (update : m.update? s = some u) :
    Effects s m (s.step m) := by
  have applied := effects_of_outcome sound update (outcome_apply s u)
  have core := core_of_update? update
  constructor
  · rw [core]
    exact applied.sound
  · intro listId
    rw [entry, core]
    exact applied.effect listId

/-- What is known of a list once a batch for it was accepted. -/
theorem entry_of_edits? (sound : s.core.Sound) (update : m.update? s = some u) {l : LoadedList}
    {b : Batch} (accepted : s.edits? u = some (l, b)) :
    (s.step m).entry b.listId =
      ⟨some { l with
          items := (applyEdits l.items b.edits).1
          window := editedWindow l.window (applyEdits l.items b.edits).2.delta },
        (editedRequests s.requests b.listId l.window
          (applyEdits l.items b.edits).2.delta).pendingFor b.listId⟩ := by
  obtain ⟨-, found, -, version⟩ := edits?_eq_some_iff.1 accepted
  have others (other : ListId) (apart : other ≠ b.listId) :=
    pendingFor_editedRequests_other s.requests apart l.window (applyEdits l.items b.edits).2.delta
  rw [entry, core_of_update? update, apply_of_edits? accepted, (applyBatch_spec l version).1]
  exact (sound.entry_change found others _ b.listId).trans (if_pos rfl)

/-- What is known of a list once a request for it was settled. -/
theorem entry_of_settled (sound : s.core.Sound) {answer : Update} {l : LoadedList} {r : Request}
    (answered : Answered s u answer l r) {f : LoadedList → LoadedList} {versions : Ledger}
    {next : Session} (core : next.core = { s.core with
      lists := s.lists.modify r.listId f, requests := s.requests.settle r.token, versions }) :
    next.entry r.listId = ⟨some (f l), (s.requests.pendingFor r.listId).erase r⟩ := by
  have table : s.requests.Sound := sound.requests
  have own := (table.pendingFor_settle answered.pending r.listId).trans (if_pos rfl)
  rw [entry, core, ← own]
  refine (sound.entry_change answered.found ?_ _ r.listId).trans (if_pos rfl)
  intro other apart
  rw [table.pendingFor_settle answered.pending, if_neg apart]
  rfl

/-- What is known of an index list once a request for it was settled: what the request waited for is
not in flight any more. -/
theorem entry_of_answer? (sound : s.core.Sound) (update : m.update? s = some u) {a : RangeAnswer}
    {asked : Span} (settled : s.answer? u = some (a, asked)) :
    ∃ l r w items w', Answered s u (.range a) l r ∧ l.window = .index w ∧ r.span? = some asked
      ∧ w'.inFlight = w.inFlight.filter (· ≠ asked)
      ∧ (s.step m).entry r.listId =
        ⟨some { l with items, window := .index w' }, (s.requests.pendingFor r.listId).erase r⟩ := by
  obtain ⟨kind, read, checked⟩ := checked_of_answer? settled
  have table : s.requests.Sound := sound.requests
  -- whichever way the answer goes, it is the one that was looked up
  have named {l : LoadedList} {r : Request} {a' : RangeAnswer} {asked' : Span}
      (answered : Answered s u (.range a') l r) (range : r.span? = some asked') :
      a' = a ∧ asked' = asked := by
    have same := (answer?_of_answered table answered range).symm.trans settled
    simpa using same
  have core := core_of_update? update
  have outcome := outcome_apply s u
  generalize s.apply u.kindName u.payload = result at core outcome
  obtain ⟨next, answer⟩ := result
  dsimp only at core outcome
  cases outcome with
  | refused why plain unsettled =>
    rw [unsettled] at settled
    cases settled
  | edited accepted _ =>
    obtain ⟨-, -, read', -⟩ := edits?_eq_some_iff.1 accepted
    rw [read] at read'
    cases read'
  | merged answered loaded range absorbed after =>
    obtain ⟨rfl, rfl⟩ := named answered range
    exact ⟨_, _, _, _, _, answered, loaded, range, IndexWindow.inFlight_of_absorb absorbed,
      entry_of_settled sound answered (core.trans after)⟩
  | detached answered loaded range absorbed =>
    obtain ⟨rfl, rfl⟩ := named answered range
    exact ⟨_, _, _, _, _, answered, loaded, range, rfl,
      entry_of_settled sound answered (core.trans (core_reject ..))⟩
  | joined answered loaded page after => cases answered.eq_of_read read
  | mispaged answered loaded page other => cases answered.eq_of_read read

/-! ### Registrations and accesses -/

/-- A registration has the effect of nothing, or it takes in one list. -/
theorem effects_of_registration (sound : s.core.Sound) {kindName : String} {payload : Json}
    {answer : Except Rejection Handle} (h : Registration s kindName payload next answer) :
    Effects s m next := by
  cases h with
  | refused why => exact effects_of_core_eq sound (core_reject ..)
  | installed unfinished inRange read =>
    rename_i p list
    have core := core_install s list p.version
    constructor
    · rw [core]
      refine ⟨sound.lists.insert list, sound.requests.abandon list.id, ?_⟩
      intro h
      rw [show s.core.finished = false from unfinished] at h
      cases h
    · intro other
      have lists : (s.lists.insert list).1.find? other = _ := sound.lists.find?_insert list other
      rw [entry, core]
      simp only [Core.entry]
      rw [lists, s.requests.pendingFor_abandon]
      -- the list that was taken in is as its payload says, and no other one is touched
      by_cases h : other = list.id
      · rw [if_pos h, if_pos h]
        exact .installed inRange read
      · rw [if_neg h, if_neg h]
        exact .kept

/-- An access to an index list asks for the planned ranges, and answers with their requests. -/
theorem ensureIndex_eq {listId : ListId} {l : LoadedList} {w : IndexWindow}
    (unfinished : s.finished = false) (found : s.find? listId = some l)
    (loaded : l.window = .index w) (i : Int) :
    s.ensureIndex listId i = ((s.fetchRanges listId (w.plan s.policy i)).1,
      .ok (s.fetchRanges listId (w.plan s.policy i)).2) := by
  have kind : l.kind = .index := by rw [LoadedList.kind, loaded, Window.kind]
  simp only [ensureIndex, unfinished, findKind_eq_ok_iff.2 ⟨found, kind⟩, loaded,
    Bool.false_eq_true, if_false]

/-- The session after an access to an index list has asked for the planned ranges. -/
theorem ensureIndex_of_loaded {listId : ListId} {l : LoadedList} {w : IndexWindow}
    (unfinished : s.finished = false) (found : s.find? listId = some l)
    (loaded : l.window = .index w) (i : Int) :
    (s.ensureIndex listId i).1 = (s.fetchRanges listId (w.plan s.policy i)).1 :=
  congrArg Prod.fst (ensureIndex_eq unfinished found loaded i)

/-- What an access to a loaded index list calls for is what its window plans. -/
theorem planned_of_loaded {listId : ListId} {l : LoadedList} {w : IndexWindow}
    (unfinished : s.finished = false) (found : s.find? listId = some l)
    (loaded : l.window = .index w) (i : Int) : s.planned listId i = w.plan s.policy i := by
  simp [planned, unfinished, found, loaded]

/-- An access to an index asks for the planned ranges of an index list, or nothing happens. -/
theorem ensureIndex_cases (sound : s.core.Sound) (listId : ListId) (i : Int) :
    (s.ensureIndex listId i).1 = s ∨ ∃ l w rs, s.finished = false ∧ s.find? listId = some l
      ∧ l.window = .index w
      ∧ rs.map (·.target)
        = (w.plan s.policy i).map (fun range => Target.range range.start range.length)
      ∧ Asked s listId (.index { w with inFlight := w.inFlight ++ w.plan s.policy i }) rs
        (s.ensureIndex listId i).1 := by
  cases unfinished : s.finished with
  | true => exact .inl (by simp only [ensureIndex, unfinished, if_true])
  | false =>
    cases hf : s.findKind listId .index with
    | error why => exact .inl (by simp only [ensureIndex, unfinished, hf, Bool.false_eq_true,
        if_false])
    | ok l =>
      obtain ⟨found, kind⟩ := findKind_eq_ok_iff.1 hf
      cases loaded : l.window with
      | token w =>
        rw [LoadedList.kind, loaded] at kind
        cases kind
      | index w =>
        obtain ⟨rs, targets, -, asked⟩ :=
          asked_fetchRanges sound found loaded (w.plan s.policy i)
        rw [← ensureIndex_of_loaded unfinished found loaded] at asked
        exact .inr ⟨l, w, rs, rfl, found, loaded, targets, asked⟩

/-- To fetch a page asks for pages of a token list, or nothing happens. -/
theorem fetchPage_cases (sound : s.core.Sound) (listId : ListId) (d : Direction) :
    (s.fetchPage listId d).1 = s ∨ ∃ l w w' rs, s.find? listId = some l ∧ l.window = .token w
      ∧ Turns w (rs.map (·.target)) w'
      ∧ Asked s listId (.token w') rs (s.fetchPage listId d).1 := by
  cases hf : s.findKind listId .token with
  | error why =>
    unfold fetchPage
    rw [hf]
    exact .inl (by split <;> rfl)
  | ok l =>
    obtain ⟨found, kind⟩ := findKind_eq_ok_iff.1 hf
    cases loaded : l.window with
    | index w =>
      rw [LoadedList.kind, loaded] at kind
      cases kind
    | token w =>
      obtain ⟨w', rs, turns, asked⟩ := asked_fetchPage sound found loaded d
      exact .inr ⟨l, w, w', rs, found, loaded, turns, asked⟩

/-- An access to a position of an index list is one to an index, and of a token list it asks for
pages. -/
theorem ensurePosition_cases (sound : s.core.Sound) (listId : ListId) (position : Nat) :
    (s.ensurePosition listId position).1 = s
    ∨ (∃ l w, s.find? listId = some l ∧ l.window = .index w
      ∧ (s.ensurePosition listId position).1
        = (s.ensureIndex listId (Index.add w.start (Index.wrapCount position))).1)
    ∨ ∃ l w w' rs, s.find? listId = some l ∧ l.window = .token w
      ∧ Turns w (rs.map (·.target)) w'
      ∧ Asked s listId (.token w') rs (s.ensurePosition listId position).1 := by
  unfold ensurePosition
  cases unfinished : s.finished with
  | true => exact .inl rfl
  | false =>
    simp only [Bool.false_eq_true, if_false]
    cases found : s.find? listId with
    | none => exact .inl rfl
    | some l =>
      cases loaded : l.window with
      | index w =>
        simp only [loaded]
        exact .inr (.inl ⟨l, w, rfl, loaded, rfl⟩)
      | token w =>
        obtain ⟨w', rs, turns, asked⟩ := asked_fetchPages sound found loaded
          (s.policy.pagesAhead l.items.length position)
        simp only [loaded]
        exact .inr (.inr ⟨l, w, w', rs, rfl, loaded, turns, asked⟩)

/-- An access to an index has one of the listed effects on each list. -/
theorem effects_of_ensureIndex (sound : s.core.Sound) {listId : ListId} {i : Int}
    (inRange : Index.InRange i) (ranges : m.ranges s = s.planned listId i) :
    Effects s m (s.ensureIndex listId i).1 := by
  rcases ensureIndex_cases sound listId i with
    same | ⟨l, w, rs, unfinished, found, loaded, targets, asked⟩
  · exact effects_of_core_eq sound (congrArg core same)
  · exact effects_of_asked asked found (.fetched inRange
      (ranges.trans (planned_of_loaded unfinished found loaded i)) found loaded targets)

/-- To fetch a page has one of the listed effects on each list. -/
theorem effects_of_fetchPage (sound : s.core.Sound) (listId : ListId) (d : Direction) :
    Effects s m (s.fetchPage listId d).1 := by
  rcases fetchPage_cases sound listId d with same | ⟨l, w, w', rs, found, loaded, turns, asked⟩
  · exact effects_of_core_eq sound (congrArg core same)
  · exact effects_of_asked asked found (.turned found loaded turns)

/-- An access to a position has one of the listed effects on each list. -/
theorem effects_of_ensurePosition (sound : s.core.Sound) (listId : ListId) (position : Nat) :
    Effects s (.ensurePosition listId position) (s.ensurePosition listId position).1 := by
  rcases ensurePosition_cases sound listId position with
    same | ⟨l, w, found, loaded, same⟩ | ⟨l, w, w', rs, found, loaded, turns, asked⟩
  · exact effects_of_core_eq sound (congrArg core same)
  · rw [same]
    refine effects_of_ensureIndex sound (Index.inRange_add ..) ?_
    simp [Move.ranges, found, loaded]
  · exact effects_of_asked asked found (.turned found loaded turns)

/-- When a session finishes, every list of it goes. -/
theorem effects_of_finish (sound : s.core.Sound) : Effects s m s.finish := by
  unfold finish
  cases s.finished with
  | true => exact effects_of_core_eq sound rfl
  | false =>
    simp only [Bool.false_eq_true, if_false]
    have none (listId : ListId) : s.lists.clear.find? listId = none := rfl
    constructor
    · exact ⟨Registry.sound_clear s.lists, RequestTable.Sound.abandonAll s.requests,
        fun _ => none⟩
    · intro listId
      exact .gone

/-! ### All moves -/

/-- A move does to each list one of the things that `Effect` lists. -/
theorem effects_step (sound : s.core.Sound) (m : Move) : Effects s m (s.step m) := by
  cases m with
  | register kindName payload =>
    exact effects_of_registration sound (registration_register s kindName payload)
  | apply kindName payload => exact effects_of_update sound rfl
  | ensureIndex listId i inRange => exact effects_of_ensureIndex sound inRange rfl
  | ensurePosition listId position => exact effects_of_ensurePosition sound listId position
  | fetchPage listId d => exact effects_of_fetchPage sound listId d
  | takeRequests => exact effects_of_core_eq sound rfl
  | takeHeard => exact effects_of_core_eq sound rfl
  | takeChanges => exact effects_of_core_eq sound rfl
  | takeReports => exact effects_of_core_eq sound rfl
  | listen => exact effects_of_core_eq sound rfl
  | unlisten => exact effects_of_core_eq sound rfl
  | send kindName payload => exact effects_of_core_eq sound (core_send ..)
  | sendText kindName text => exact effects_of_core_eq sound (core_sendText ..)
  | deliver =>
    cases h : s.inbox with
    | nil => exact effects_of_core_eq sound (congrArg core (deliver_of_nil h))
    | cons u rest => exact effects_of_update sound (by rw [Move.update?, h, List.head?_cons])
  | finish => exact effects_of_finish sound

/-- After a session has finished, no list and no version changes any more. -/
theorem core_step_of_finished (ended : s.finished = true) (m : Move) :
    (s.step m).core = s.core := by
  -- every call looks first whether the session has finished; those that do not keep the core anyway
  cases m with
  | register kindName payload =>
    show (s.register kindName payload).1.core = _
    rw [register, registerBy, if_pos ended]
  | apply kindName payload =>
    show (s.apply kindName payload).1.core = _
    rw [apply, if_pos ended]
  | ensureIndex listId i _ =>
    show (s.ensureIndex listId i).1.core = _
    rw [ensureIndex, if_pos ended]
  | ensurePosition listId position =>
    show (s.ensurePosition listId position).1.core = _
    rw [ensurePosition, if_pos ended]
  | fetchPage listId d =>
    show (s.fetchPage listId d).1.core = _
    rw [fetchPage, if_pos ended]
  | deliver =>
    show s.deliver.core = _
    unfold deliver
    split
    · rfl
    · rw [apply, if_pos (show _ = true from ended)]
      rfl
  | finish =>
    show s.finish.core = _
    rw [finish, if_pos ended]
  | send kindName payload => exact core_send ..
  | sendText kindName text => exact core_sendText ..
  | _ => rfl

/-- A session that has not finished after a move had not before. -/
theorem unfinished_of_step (h : (s.step m).finished = false) : s.finished = false := by
  cases ended : s.finished with
  | false => rfl
  | true =>
    have still : (s.step m).finished = s.finished :=
      congrArg Core.finished (core_step_of_finished ended m)
    rw [still, ended] at h
    cases h

/-- A session that has not finished at the end of a run had not at its start. -/
theorem unfinished_of_run {moves : List Move} (h : (s.run moves).finished = false) :
    s.finished = false := by
  induction moves generalizing s with
  | nil => exact h
  | cons m moves ih => exact unfinished_of_step (ih h)

/-- Where a range is planned, the session is at work and the list an index list. -/
theorem loaded_of_planned {listId : ListId} {i : Int} {range : Span}
    (h : range ∈ s.planned listId i) :
    s.finished = false ∧ ∃ l w, s.find? listId = some l ∧ l.window = .index w := by
  unfold planned at h
  split at h
  · cases h
  · rename_i unfinished
    split at h
    · rename_i w loaded
      obtain ⟨l, found, loaded⟩ := Option.map_eq_some_iff.1 loaded
      exact ⟨by simpa using unfinished, l, w, found, loaded⟩
    · cases h

/-- A move that asks for ranges is an access to an index. -/
theorem access_of_ranges {range : Span} (h : range ∈ m.ranges s) :
    ∃ listId i, Index.InRange i ∧ m.ranges s = s.planned listId i
      ∧ s.step m = (s.ensureIndex listId i).1 := by
  cases m with
  | ensureIndex listId i inRange => exact ⟨listId, i, inRange, rfl, rfl⟩
  | ensurePosition listId position =>
    cases found : s.find? listId with
    | none => simp [Move.ranges, found] at h
    | some l =>
      cases loaded : l.window with
      | token w => simp [Move.ranges, found, loaded] at h
      | index w =>
        simp only [Move.ranges, found, Option.map_some, loaded] at h ⊢
        obtain ⟨unfinished, -⟩ := loaded_of_planned h
        refine ⟨listId, _, Index.inRange_add .., rfl, ?_⟩
        show (s.ensurePosition listId position).1 = _
        simp only [ensurePosition, unfinished, found, loaded, Bool.false_eq_true, if_false]
  | _ => cases h

/-- What is known of a list once ranges of it were asked for. -/
theorem entry_of_ranges (sound : s.core.Sound) {range : Span} (h : range ∈ m.ranges s) :
    ∃ listId l w i rs, Index.InRange i ∧ m.ranges s = w.plan s.policy i
      ∧ s.find? listId = some l ∧ l.window = .index w
      ∧ rs.map (·.target)
        = (w.plan s.policy i).map (fun range => Target.range range.start range.length)
      ∧ (s.step m).entry listId =
        ⟨some { l with window := .index { w with inFlight := w.inFlight ++ w.plan s.policy i } },
          s.requests.pendingFor listId ++ rs⟩ := by
  obtain ⟨listId, i, inRange, ranges, access⟩ := access_of_ranges h
  obtain ⟨unfinished, l, w, found, loaded⟩ := loaded_of_planned (ranges ▸ h)
  obtain ⟨rs, targets, -, asked⟩ := asked_fetchRanges sound found loaded (w.plan s.policy i)
  refine ⟨listId, l, w, i, rs, inRange,
    ranges.trans (planned_of_loaded unfinished found loaded i), found, loaded, targets, ?_⟩
  rw [access, ensureIndex_of_loaded unfinished found loaded, asked.entry listId, if_pos rfl, found]
  rfl

end

/-! ## Reachable sessions -/

/-- A new session has nothing but a policy. -/
theorem eq_of_create {policy : Policy} {s : Session} (h : create policy = .ok s) :
    ∃ policy', policy.validate = .ok policy' ∧ { policy := policy' } = s := by
  unfold create at h
  cases hv : policy.validate with
  | error why =>
    rw [hv] at h
    cases h
  | ok policy' =>
    rw [hv] at h
    cases h
    exact ⟨policy', rfl, rfl⟩

/-- In a new session names, handles and tokens agree, since there are none. -/
theorem sound_create {policy : Policy} {s : Session} (h : create policy = .ok s) :
    s.core.Sound := by
  obtain ⟨policy', -, rfl⟩ := eq_of_create h
  exact ⟨Registry.sound_empty, RequestTable.sound_empty, fun _ _ => rfl⟩

/-- In every reachable session names, handles and tokens agree. -/
theorem Reachable.sound {s : Session} (h : Reachable s) : s.core.Sound := by
  induction h with
  | create h => exact sound_create h
  | step h m ih => exact (effects_step ih m).sound

end ListSync.Session
