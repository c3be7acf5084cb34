import ListSync.Proofs.Session.Correlation

/-!
# Versions follow each other, and nothing is applied twice

From one registration of a list to the next, the versions of the payloads that are accepted for it
follow each other without a gap, beginning with the one after the version of the registration
(`version?_step` for a move, `versions_run` for a run). So what was accepted is refused when it
comes again: a batch because its version has passed, an answer because its token is spent.
`version_law` puts this together.
-/

namespace ListSync.Session

/-! ## What is accepted -/

/-- A payload as a session accepts it. -/
def accepted? (s : Session) (u : QueuedUpdate) : Option Update :=
  match (s.apply u.kindName u.payload).2 with
  | .ok _ => (readUpdate u.kindName u.payload).toOption.map (·.2)
  | .error _ => none

/-- The payload that a move makes a session accept. -/
def Move.accepted? (s : Session) (m : Move) : Option Update := (m.update? s).bind s.accepted?

/-- The version that a payload carries for a list. -/
def versionFor (listId : ListId) (update : Update) : Option Version :=
  if update.listId = listId then update.version else none

/-- The version that a move makes a session accept for a list. -/
def Move.taken? (s : Session) (m : Move) (listId : ListId) : Option Version :=
  (m.accepted? s).bind (versionFor listId)

/-- The versions that are accepted for a list along a run. -/
def versionsTaken (s : Session) (listId : ListId) : List Move → List Version
  | [] => []
  | m :: moves => (m.taken? s listId).toList ++ (s.step m).versionsTaken listId moves

variable {s next : Session} {m : Move} {u : QueuedUpdate} {listId : ListId}

/-! ## Versions after a move -/

/-- To report a rejection keeps all versions. -/
theorem versions_reject (s : Session) (payload : Json) (why : Rejection) :
    (s.reject payload why).versions = s.versions := congrArg Core.versions (core_reject ..)

/-- A payload is accepted with the next version or with none, and its version is noted; no other
payload has to do with versions. -/
theorem versions_apply (s : Session) (u : QueuedUpdate) :
    s.accepted? u = none ∧ (s.apply u.kindName u.payload).1.versions = s.versions
    ∨ ∃ update, s.accepted? u = some update
      ∧ (∀ w ∈ update.version, s.versions.wouldAccept update.listId w)
      ∧ (s.apply u.kindName u.payload).1.versions
        = acceptedVersions s.versions update.listId update.version := by
  unfold accepted?
  have outcome := outcome_apply s u
  generalize s.apply u.kindName u.payload = result at outcome ⊢
  obtain ⟨next, answer⟩ := result
  dsimp only at outcome ⊢
  -- an answer that is accepted has passed the check of its version, if it has one
  have answered {answer : Update} {l : LoadedList} {r : Request} (h : Answered s u answer l r)
      (versions : next.versions = acceptedVersions s.versions r.listId answer.version) :
      ∃ update, (readUpdate u.kindName u.payload).toOption.map (·.2) = some update
        ∧ (∀ w ∈ update.version, s.versions.wouldAccept update.listId w)
        ∧ next.versions = acceptedVersions s.versions update.listId update.version := by
    refine ⟨answer, by rw [h.read]; rfl, ?_, by rw [versions, h.listId]⟩
    intro w given
    have checked := h.version
    rw [given, ← h.listId] at checked
    exact checkVersion_eq_ok_iff.1 checked
  cases outcome with
  | refused why _ _ => exact .inl ⟨rfl, versions_reject ..⟩
  | edited accepted core =>
    obtain ⟨-, -, read, version⟩ := edits?_eq_some_iff.1 accepted
    refine .inr ⟨.batch _, by rw [read]; rfl, ?_, congrArg Core.versions core⟩
    rintro w ⟨⟩
    exact checkVersion_eq_ok_iff.1 version
  | merged h _ _ _ core => exact .inr (answered h (congrArg Core.versions core))
  | detached _ _ _ _ => exact .inl ⟨rfl, versions_reject ..⟩
  | joined h _ _ core => exact .inr (answered h (congrArg Core.versions core))
  | mispaged _ _ _ _ => exact .inl ⟨rfl, versions_reject ..⟩

/-- A registration sets the version of its list. -/
theorem version?_of_registers {registered : Option Version}
    (h : m.registers? s = some (listId, registered)) :
    (s.step m).version? listId = registered := by
  obtain ⟨kindName, payload, list, rfl, unfinished, read, rfl⟩ := registers?_eq_some_iff.1 h
  show (s.register kindName payload).1.version? list.id = _
  rw [register_of_read unfinished read, version?_install, if_pos rfl]

/-- A move that neither registers nor updates a list leaves its version, or ends the session. -/
theorem version?_of_none (other : ¬m.Registers s listId) (none : m.update? s = none) :
    (s.step m).finished = true ∨ (s.step m).version? listId = s.version? listId := by
  have kept (same : (s.step m).versions = s.versions) :
      (s.step m).version? listId = s.version? listId :=
    congrArg (·.current? listId) same
  have asked (same : (s.step m).still = s.still) :
      (s.step m).version? listId = s.version? listId :=
    kept (show (s.step m).still.versions = s.still.versions by rw [same])
  cases m with
  | register kindName payload =>
    refine .inr ?_
    show (s.register kindName payload).1.version? listId = _
    cases unfinished : s.finished with
    | true => rw [register, registerBy, if_pos unfinished]
    | false =>
      cases read : readList kindName payload with
      | error why =>
        rw [register, registerBy, if_neg (by simp [unfinished]), read]
        exact congrArg (·.current? listId) (versions_reject s payload why)
      | ok listVersion =>
        obtain ⟨list, version⟩ := listVersion
        -- it is another list that is registered, since the move does not register this one
        have apart : listId ≠ list.id := by
          rintro rfl
          have h := registers?_eq_some_iff.2 ⟨_, _, _, rfl, unfinished, read, rfl⟩
          exact other (congrArg (Option.map Prod.fst) h)
        rw [register_of_read unfinished read, version?_install, if_neg apart]
  | apply kindName payload => cases none
  | deliver =>
    refine .inr (kept ?_)
    rw [show s.step .deliver = s from deliver_of_nil (List.head?_eq_none_iff.1 none)]
  | ensureIndex listId i inRange =>
    exact .inr (asked (s.still_ensureIndex listId i))
  | ensurePosition listId position =>
    exact .inr (asked (s.still_ensurePosition listId position))
  | fetchPage listId d => exact .inr (asked (s.still_fetchPage listId d))
  | send kindName payload => exact .inr (kept (congrArg Core.versions (core_send ..)))
  | sendText kindName text => exact .inr (kept (congrArg Core.versions (core_sendText ..)))
  | finish =>
    refine .inl ?_
    show s.finish.finished = true
    unfold finish
    split
    · assumption
    · rfl
  | _ => exact .inr (kept rfl)

/-- The version of a list is the last one that was accepted, and the next one has to follow. -/
theorem version?_step (other : ¬m.Registers s listId) :
    (s.step m).finished = true ∧ m.taken? s listId = none
    ∨ (∀ w ∈ m.taken? s listId, s.versions.wouldAccept listId w)
      ∧ (s.step m).version? listId = (m.taken? s listId).or (s.version? listId) := by
  unfold Move.taken? Move.accepted?
  cases update : m.update? s with
  | none => exact (version?_of_none other update).imp (⟨·, rfl⟩) (⟨by rintro w ⟨⟩, ·⟩)
  | some u =>
    refine .inr ?_
    have core : (s.step m).versions = (s.apply u.kindName u.payload).1.versions :=
      congrArg Core.versions (core_of_update? update)
    rw [Option.bind_some, version?, core]
    rcases versions_apply s u with ⟨none, kept⟩ | ⟨update, accepted, next, versions⟩
    · rw [none, kept]
      exact ⟨by rintro w ⟨⟩, rfl⟩
    · rw [accepted, versions, Option.bind_some, versionFor]
      by_cases own : update.listId = listId
      · subst own
        rw [if_pos rfl]
        exact ⟨next, current?_acceptedVersions next⟩
      · rw [if_neg own]
        exact ⟨by rintro w ⟨⟩, current?_acceptedVersions_other _ (Ne.symm own) _⟩

/-! ## Versions along a run -/

theorem taken?_of_finished (ended : s.finished = true) : m.taken? s listId = none := by
  unfold Move.taken? Move.accepted?
  cases m.update? s with
  | none => rfl
  | some u => simp [accepted?, apply, ended]

/-- A finished session stays so, and takes no version any more. -/
theorem run_of_finished (ended : s.finished = true) (moves : List Move) :
    (s.run moves).finished = true ∧ s.versionsTaken listId moves = [] := by
  induction moves generalizing s with
  | nil => exact ⟨ended, rfl⟩
  | cons m moves ih =>
    have still : (s.step m).finished = s.finished :=
      congrArg Core.finished (core_step_of_finished ended m)
    obtain ⟨rest, none⟩ := ih (still.trans ended)
    exact ⟨rest, by rw [versionsTaken, none, taken?_of_finished ended]; rfl⟩

/-- The versions that are accepted for a list follow each other, from the one after its version. -/
theorem versions_run {moves : List Move}
    (alone : s.Throughout (fun s m => ¬m.Registers s listId) moves) :
    (∃ first n, (∀ v ∈ s.version? listId, first = v + 1)
      ∧ s.versionsTaken listId moves = List.range' first n)
    ∧ ((s.run moves).finished = true ∨ (s.run moves).version? listId
      = (s.versionsTaken listId moves).getLast?.or (s.version? listId)) := by
  have none (current : Option Version) :
      ∃ first n, (∀ v ∈ current, first = v + 1) ∧ [] = List.range' first n :=
    ⟨current.getD 0 + 1, 0, by rintro v h; rw [h, Option.getD_some], rfl⟩
  induction moves generalizing s with
  | nil => exact ⟨none _, .inr rfl⟩
  | cons m moves ih =>
    obtain ⟨other, alone⟩ := alone
    rw [run_cons, versionsTaken]
    rcases version?_step other with ⟨ended, taken⟩ | ⟨next, version⟩
    · obtain ⟨rest, nothing⟩ : _ ∧ (s.step m).versionsTaken listId moves = [] :=
        run_of_finished ended moves
      rw [nothing, taken]
      exact ⟨none _, .inl rest⟩
    · obtain ⟨⟨first, n, follows, rest⟩, last⟩ := ih alone
      cases taken : m.taken? s listId with
      | none =>
        rw [taken, Option.none_or] at version
        rw [version] at follows last
        exact ⟨⟨first, n, follows, rest⟩, last⟩
      | some w =>
        -- the next version is the first one, and the others follow
        rw [taken, Option.some_or] at version
        obtain rfl := follows w version
        refine ⟨⟨w, n + 1, ?_, ?_⟩, last.imp_right ?_⟩
        · intro v current
          have accepted := (Ledger.wouldAccept_iff ..).1 (next w taken) v current
          exact accepted.2.symm
        · rw [rest, Option.toList_some, List.range'_succ]
          rfl
        · intro same
          rw [same, version, Option.toList_some, List.singleton_append, List.getLast?_cons,
            Option.some_or]
          cases ((s.step m).versionsTaken listId moves).getLast? <;> rfl

/-- The version of a list never goes back, unless the list is registered anew. -/
theorem le_version?_run {moves : List Move} {v : Version}
    (alone : s.Throughout (fun s m => ¬m.Registers s listId) moves)
    (current : s.version? listId = some v) :
    (s.run moves).finished = true ∨ ∃ w, v ≤ w ∧ (s.run moves).version? listId = some w := by
  obtain ⟨⟨first, n, follows, taken⟩, last⟩ := versions_run alone
  refine last.imp_right ?_
  intro version
  obtain rfl := follows v current
  rw [version, taken, current, List.getLast?_range']
  split
  · exact ⟨v, Nat.le_refl v, rfl⟩
  · exact ⟨_, Nat.le_sub_of_add_le (Nat.le_add_right _ n), rfl⟩

/-! ## Payloads that come again -/

/-- A payload whose version is not the next one is dropped. -/
theorem drops_of_version {kind : Kind} {update : Update} {w : Version}
    (read : readUpdate u.kindName u.payload = .ok (kind, update)) (given : update.version = some w)
    (gap : ¬s.versions.wouldAccept update.listId w) : Drops s u := by
  rcases drops_or_settles s u with drops | ⟨l, b, edits⟩ | ⟨answer, l, r, answered, -⟩
  · exact drops
  · obtain ⟨-, -, read', checked⟩ := edits?_eq_some_iff.1 edits
    obtain ⟨-, rfl⟩ := Prod.mk.inj (Except.ok.inj (read.symm.trans read'))
    obtain rfl := Option.some.inj given
    exact absurd (checkVersion_eq_ok_iff.1 checked) gap
  · obtain ⟨-, rfl⟩ := Prod.mk.inj (Except.ok.inj (read.symm.trans answered.read))
    have checked := answered.version
    rw [given, ← answered.listId] at checked
    exact absurd (checkVersion_eq_ok_iff.1 checked) gap

/-- A finished session drops every update. -/
theorem drops_of_finished (ended : s.finished = true) (u : QueuedUpdate) : Drops s u := by
  refine ⟨.finished, id, ?_⟩
  rw [apply, if_pos ended]
  simp [Rejection.report?, Rejection.reason?]

/-- What was read as a batch of an update is a batch by itself. -/
theorem Update.ofJson?_of_parse_batch {kind : Kind} {payload : Json} {b : Batch}
    (h : Update.parse kind payload = .ok (.batch b)) : Batch.ofJson? payload = some b := by
  unfold Update.parse at h
  split at h
  · split at h
    · obtain ⟨b', fits, ⟨⟩⟩ := bind_eq_ok_iff.1 h
      exact eq_some_of_fitting fits
    · split at h
      · cases kind <;> obtain ⟨a, -, ⟨⟩⟩ := bind_eq_ok_iff.1 h
      · cases h
  · cases h

/-- Edits are the same under the name of either kind. -/
theorem ofJson?_of_edits? {l : LoadedList} {b : Batch} (h : s.edits? u = some (l, b)) :
    Batch.ofJson? u.payload = some b := by
  obtain ⟨-, -, read, -⟩ := edits?_eq_some_iff.1 h
  obtain ⟨kind, -, read⟩ := bind_eq_ok_iff.1 read
  obtain ⟨update, parsed, ⟨⟩⟩ := bind_eq_ok_iff.1 read
  exact Update.ofJson?_of_parse_batch parsed

/-- A batch is dropped once its version has passed. -/
theorem drops_of_passed {b : Batch} {v : Version} {kindName : String}
    (batch : Batch.ofJson? u.payload = some b) (edits : u.payload.member? "operations" ≠ none)
    (current : s.version? b.listId = some v) (passed : b.version ≤ v) :
    Drops s ⟨kindName, u.payload⟩ := by
  rcases drops_or_settles s ⟨kindName, u.payload⟩ with
    drops | ⟨l, b', accepted⟩ | ⟨answer, l, r, answered, -⟩
  · exact drops
  · have same := ofJson?_of_edits? (u := ⟨kindName, u.payload⟩) accepted
    obtain rfl := Option.some.inj (batch.symm.trans same)
    obtain ⟨-, -, -, checked⟩ := edits?_eq_some_iff.1 accepted
    have next := (Ledger.wouldAccept_iff ..).1 (checkVersion_eq_ok_iff.1 checked) v current
    exact absurd (next.2 ▸ Nat.lt_succ_self v : v < b.version) (Nat.not_lt.2 passed)
  · exact absurd ((answered.carries r.token).2 rfl).1 edits

/-- A payload that was accepted is dropped whenever it comes again before its list is registered
anew, under the name of either kind. -/
theorem drops_again (sound : s.core.Sound) {update : Update} (handed : m.update? s = some u)
    (accepted : s.accepted? u = some update) (own : update.listId = listId)
    (other : ¬m.Registers s listId) {later : List Move}
    (alone : (s.step m).Throughout (fun s m => ¬m.Registers s listId) later) (kindName : String) :
    Drops ((s.step m).run later) ⟨kindName, u.payload⟩ := by
  have sound' := (effects_step sound m).sound
  have read : ∃ applied kind, (s.apply u.kindName u.payload).2 = .ok applied
      ∧ readUpdate u.kindName u.payload = .ok (kind, update) := by
    unfold Session.accepted? at accepted
    split at accepted
    · rename_i applied answer
      cases read : readUpdate u.kindName u.payload with
      | error why => simp [read, Except.toOption] at accepted
      | ok kindUpdate =>
        obtain ⟨kind, update'⟩ := kindUpdate
        obtain rfl : update' = update := by simpa [read, Except.toOption] using accepted
        exact ⟨applied, kind, answer, rfl⟩
    · cases accepted
  obtain ⟨applied, kind, answer, read⟩ := read
  rcases drops_or_settles s u with ⟨why, -, refused⟩ | ⟨l, b, edits⟩ | ⟨a, l, r, answered, -, taken⟩
  · rw [refused] at answer
    cases answer
  · -- a batch comes again with a version that has passed
    obtain ⟨-, -, read', -⟩ := edits?_eq_some_iff.1 edits
    obtain ⟨-, rfl⟩ := Prod.mk.inj (Except.ok.inj (read.symm.trans read'))
    obtain rfl : b.listId = listId := own
    have taken : m.taken? s b.listId = some b.version := by
      rw [Move.taken?, Move.accepted?, handed, Option.bind_some, accepted, Option.bind_some,
        versionFor, if_pos (show (Update.batch b).listId = b.listId from rfl)]
      rfl
    rcases version?_step other with ⟨-, none⟩ | ⟨-, version⟩
    · rw [taken] at none
      cases none
    · rw [taken, Option.some_or] at version
      rcases le_version?_run alone version with ended | ⟨w, passed, current⟩
      · exact drops_of_finished ended _
      · exact drops_of_passed (ofJson?_of_edits? edits) (operations_of_edits? edits) current passed
  · -- an answer comes again with a token that is spent
    have settles : Settles s r.ticket m :=
      .answered handed ((answered.carries r.ticket.token).2 rfl) taken
    have pending := List.mem_map_of_mem (f := Request.ticket) answered.pending
    have spent := (spent_of_settles sound pending settles).run sound' later
    exact spent.drops ((answered.carries r.ticket.token).2 rfl)

/-- From a registration of a list on, its versions follow each other, and no payload for it is
accepted twice. -/
structure VersionLaw (s : Session) (listId : ListId) (registered : Option Version)
    (moves : List Move) : Prop where
  /-- The versions of accepted payloads are consecutive, from the one after the version that was
  registered, or from any if there is none. -/
  consecutive : ∃ first n, (∀ v ∈ registered, first = v + 1)
    ∧ s.versionsTaken listId moves = List.range' first n
  /-- The version of the list is the last one of these. -/
  current : (s.run moves).finished = true ∨ (s.run moves).version? listId
    = (s.versionsTaken listId moves).getLast?.or registered
  /-- A payload of any other version than the next one is dropped. -/
  gapless : ∀ (u : QueuedUpdate) (kind : Kind) (update : Update) (w v : Version),
    readUpdate u.kindName u.payload = .ok (kind, update) → update.listId = listId →
    update.version = some w → (s.versionsTaken listId moves).getLast?.or registered = some v →
    w ≠ v + 1 → Drops (s.run moves) u
  /-- A payload without a version that is accepted leaves the version. -/
  unversioned : ∀ (m : Move) (update : Update), m.accepted? (s.run moves) = some update →
    update.listId = listId → update.version = none →
    ((s.run moves).step m).version? listId = (s.run moves).version? listId
  /-- A payload that was accepted is dropped when it comes again. -/
  unrepeated : ∀ (before : List Move) (m : Move) (later : List Move) (u : QueuedUpdate)
    (update : Update), moves = before ++ m :: later → m.update? (s.run before) = some u →
    (s.run before).accepted? u = some update → update.listId = listId →
    ∀ kindName, Drops (s.run moves) ⟨kindName, u.payload⟩

/-- An accepted payload without a version leaves all versions. -/
theorem version?_of_unversioned {update : Update} (accepted : m.accepted? s = some update)
    (none : update.version = none) : (s.step m).version? listId = s.version? listId := by
  obtain ⟨u, handed, accepted⟩ := Option.bind_eq_some_iff.1 accepted
  have core : (s.step m).versions = (s.apply u.kindName u.payload).1.versions :=
    congrArg Core.versions (core_of_update? handed)
  rw [version?, core]
  rcases versions_apply s u with ⟨nothing, -⟩ | ⟨update', accepted', -, versions⟩
  · rw [nothing] at accepted
    cases accepted
  · obtain rfl := Option.some.inj (accepted.symm.trans accepted')
    rw [versions, none]
    rfl

/-- Versions follow each other from one registration of a list to the next, and nothing is accepted
twice in between. -/
theorem version_law (reachable : Reachable s) {registered : Option Version}
    (registers : m.registers? s = some (listId, registered)) {moves : List Move}
    (alone : (s.step m).Throughout (fun s m => ¬m.Registers s listId) moves) :
    VersionLaw (s.step m) listId registered moves := by
  have sound := (reachable.step m).sound
  have start := version?_of_registers registers
  obtain ⟨consecutive, current⟩ := versions_run alone
  rw [start] at consecutive current
  refine ⟨consecutive, current, ?_, ?_, ?_⟩
  · rintro u kind update w v read rfl given last gap
    rcases current with ended | version
    · exact drops_of_finished ended u
    · refine drops_of_version read given ?_
      intro next
      have follows := (Ledger.wouldAccept_iff ..).1 next v (version.trans last)
      exact gap follows.2.symm
  · intro m' update accepted _ none
    exact version?_of_unversioned accepted none
  · rintro before m' later u update rfl handed accepted own kindName
    obtain ⟨-, other, alone'⟩ := throughout_append.1 alone
    have sound' := ((reachable.step m).run before).sound
    rw [run_append, run_cons]
    exact drops_again sound' handed accepted own other alone' kindName

/-- A list with an item is made known in version 4. -/
def listedAtFour : Move :=
  .register "dynamicIndexList" (.obj [("listId", .str "l"), ("listVersion", Json.ofNat 4),
    ("startIndex", Json.ofInt 0), ("items", .arr [.str "a"])])

/-- Another item is put in front in a version. -/
def frontEdit (version : Version) : Batch := ⟨"l", version, [.insert 0 (.str "x")]⟩

/-- The list is edited twice, and between the edits more of it is fetched. -/
def editedTwice : List Move :=
  [.ensureIndex "l" 1 inRange_one, .apply "dynamicIndexList" (frontEdit 5).toJson,
    .apply "dynamicIndexList" (.obj [("listId", .str "l"), ("correlationToken", .str "101"),
      ("startIndex", Json.ofInt 2), ("items", .arr [.str "b"])]),
    .apply "dynamicIndexList" (frontEdit 6).toJson]

/-- Two versions are accepted after the one that was registered, and the first edit is dropped when
it comes again. -/
theorem versionLaw_editedTwice :
    listedAtFour.registers? {} = some ("l", some 4)
    ∧ (({} : Session).step listedAtFour).versionsTaken "l" editedTwice = [5, 6]
    ∧ VersionLaw (({} : Session).step listedAtFour) "l" (some 4) editedTwice
    ∧ Drops ((({} : Session).step listedAtFour).run editedTwice)
      ⟨"dynamicIndexList", (frontEdit 5).toJson⟩ := by
  have registers : listedAtFour.registers? {} = some ("l", some 4) := by decide
  have law : VersionLaw (({} : Session).step listedAtFour) "l" (some 4) editedTwice :=
    version_law reachable_default registers (by decide)
  exact ⟨registers, by decide, law, law.unrepeated [editedTwice[0]] editedTwice[1] _
    ⟨"dynamicIndexList", (frontEdit 5).toJson⟩ (.batch (frontEdit 5)) rfl rfl (by decide) rfl _⟩

end ListSync.Session
