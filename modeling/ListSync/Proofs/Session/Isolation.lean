import ListSync.Proofs.Session.Changes
import ListSync.Proofs.Session.Correlation
import ListSync.Proofs.Session.Posting

/-!
# The lists of a session are kept apart

All lists of a session share one registry, one table of requests, one ledger of versions and the
queues for the host. What these hold of one list is its `Share`. A move that is about another list,
whether it succeeds or not, leaves the share as it is (`share_step`), and so does a run of such
moves (`share_run`). An answer for one list under a token of another is no exception: it is dropped,
so the request of the other list stays outstanding (`lists_isolated`).
-/

namespace ListSync

/-- The list that an update names, if it can be read. -/
def QueuedUpdate.names? (u : QueuedUpdate) : Option ListId :=
  (Session.readUpdate u.kindName u.payload).toOption.map fun (_, update) => update.listId

/-- An update that was read names the list that it is for. -/
theorem QueuedUpdate.names?_of_read {u : QueuedUpdate} {kind : Kind} {update : Update}
    (read : Session.readUpdate u.kindName u.payload = .ok (kind, update)) :
    u.names? = some update.listId := by rw [names?, read]; rfl

namespace Session

/-- All that a session keeps of one list. -/
structure Share where
  handle? : Option Handle
  list? : Option LoadedList
  version? : Option Version
  outstanding : List Request
  /-- The requests for the list that wait to be sent. -/
  outbox : List FetchRequest
  heard : List FetchRequest
  changes : List ListChange
deriving DecidableEq

/-- All that a session keeps of a list. -/
def share (s : Session) (listId : ListId) : Share where
  handle? := s.lists.handle? listId
  list? := s.find? listId
  version? := s.version? listId
  outstanding := s.outstanding listId
  outbox := s.outbox.filter (·.listId = listId)
  heard := s.heard.filter (·.listId = listId)
  changes := s.changes.filter (·.listId = listId)

/-- The list that a move is about, if it is about one list. -/
def Move.names? (s : Session) : Move → Option ListId
  | .register kindName payload => (readList kindName payload).toOption.map fun (list, _) => list.id
  | .ensureIndex listId _ _ | .ensurePosition listId _ | .fetchPage listId _ => some listId
  | m => (m.update? s).bind QueuedUpdate.names?

/-- Whether a move is about all lists at once: the host takes what waits for it, or the session
finishes. -/
def Move.sweeps : Move → Bool
  | .takeRequests | .takeHeard | .takeChanges | .finish => true
  | _ => false

variable {s next : Session} {m : Move} {u : QueuedUpdate} {listId other : ListId}

/-! ## Changes of one list -/

/-- What a session keeps of a list is what it knows of it, and what waits for it. -/
theorem share_congr (handle : next.lists.handle? other = s.lists.handle? other)
    (entry : next.entry other = s.entry other) (version : next.version? other = s.version? other)
    (outbox : next.outbox.filter (·.listId = other) = s.outbox.filter (·.listId = other))
    (heard : next.heard.filter (·.listId = other) = s.heard.filter (·.listId = other))
    (changes : next.changes.filter (·.listId = other) = s.changes.filter (·.listId = other)) :
    next.share other = s.share other := by
  have list : next.find? other = s.find? other := congrArg Entry.list? entry
  have requests : next.requests.pendingFor other = s.requests.pendingFor other :=
    congrArg Entry.requests entry
  have outstanding : next.outstanding other = s.outstanding other := by
    rw [Session.outstanding, RequestTable.outstanding, ← RequestTable.pendingFor, requests]
    rfl
  rw [share, handle, list, version, outstanding, outbox, heard, changes, share]

/-- Where lists, versions and requests stay as they are, only what waits can tell. -/
theorem share_of_core_eq (core : next.core = s.core) (post : next.post = s.post)
    (changes : next.changes.filter (·.listId = other) = s.changes.filter (·.listId = other)) :
    next.share other = s.share other := by
  refine share_congr (congrArg (·.lists.handle? other) core) (congrArg (·.entry other) core)
    (congrArg (·.versions.current? other) core) ?_ ?_ changes
  · exact congrArg (·.outbox.filter (·.listId = other)) post
  · exact congrArg (·.heard.filter (·.listId = other)) post

/-- A change of one list, of the requests for it and of its version. -/
theorem share_of_change (sound : s.core.Sound) {l : LoadedList} {f : LoadedList → LoadedList}
    {t : RequestTable} {versions : Ledger} (found : s.find? listId = some l)
    (core : next.core = { s.core with
      lists := s.lists.modify listId f, requests := t, versions })
    (others : ∀ other, other ≠ listId → t.pendingFor other = s.requests.pendingFor other)
    (apart : other ≠ listId) (version : versions.current? other = s.versions.current? other)
    (post : next.post = s.post)
    (changes : next.changes.filter (·.listId = other) = s.changes.filter (·.listId = other)) :
    next.share other = s.share other := by
  have handle : next.lists.handle? other = s.lists.handle? other := by
    rw [show next.lists = s.lists.modify listId f from congrArg Core.lists core]
    exact s.lists.handle?_modify ..
  have entry : next.entry other = s.entry other := by
    rw [Session.entry, core]
    exact (sound.entry_change found others versions other).trans (if_neg apart)
  refine share_congr handle entry ((congrArg (·.versions.current? other) core).trans version)
    ?_ ?_ changes
  · exact congrArg (·.outbox.filter (·.listId = other)) post
  · exact congrArg (·.heard.filter (·.listId = other)) post

/-! ## Updates -/

/-- What tells of one list tells nothing of another. -/
theorem filter_telling (apart : other ≠ listId) (diff : Diff) :
    (telling listId diff).filter (·.listId = other) = [] := by
  unfold telling
  split
  · rfl
  · simp [apart.symm]

/-- An update that settles a request names the list that the request is for. -/
theorem Answered.names {answer : Update} {l : LoadedList} {r : Request}
    (answered : Answered s u answer l r) : u.names? = some r.listId := by
  rw [QueuedUpdate.names?_of_read answered.read, answered.listId]

/-- Whatever comes of an update, it touches only the list that it names. -/
theorem share_apply (sound : s.core.Sound) (apart : u.names? ≠ some other) :
    (s.apply u.kindName u.payload).1.share other = s.share other := by
  have post := s.post_apply u.kindName u.payload
  have changes := s.changes_apply u.kindName u.payload
  have outcome := outcome_apply s u
  have table : s.requests.Sound := sound.requests
  generalize s.apply u.kindName u.payload = result at post changes outcome ⊢
  obtain ⟨next, answer⟩ := result
  dsimp only at post changes outcome ⊢
  -- what an accepted update tells of is the list that it names
  have told {listId : ListId} {diff : Diff} (own : u.names? = some listId)
      (telling : next.changes = s.changes ++ telling listId diff) :
      next.changes.filter (·.listId = other) = s.changes.filter (·.listId = other) := by
    have apart : other ≠ listId := fun same => apart (same ▸ own)
    rw [telling, List.filter_append, filter_telling apart, List.append_nil]
  have untold (silent : next.changes = s.changes ++ []) :
      next.changes.filter (·.listId = other) = s.changes.filter (·.listId = other) := by
    rw [silent, List.append_nil]
  -- all but two of the ways settle one request
  have settled {update : Update} {l : LoadedList} {r : Request} {f : LoadedList → LoadedList}
      {v : Option Version} (answered : Answered s u update l r)
      (core : next.core = { s.core with
        lists := s.lists.modify r.listId f
        requests := s.requests.settle r.token
        versions := acceptedVersions s.versions r.listId v })
      (changes : next.changes.filter (·.listId = other) = s.changes.filter (·.listId = other)) :
      next.share other = s.share other := by
    have apart : other ≠ r.listId := fun same => apart (same ▸ answered.names)
    refine share_of_change sound answered.found core ?_ apart
      (current?_acceptedVersions_other _ apart v) post changes
    intro other apart
    rw [table.pendingFor_settle answered.pending, if_neg apart]
  cases outcome with
  | refused why plain unsettled => exact share_of_core_eq (core_reject ..) post (untold changes)
  | @edited l b _ accepted core =>
    obtain ⟨-, found, read, -⟩ := edits?_eq_some_iff.1 accepted
    have own : u.names? = some b.listId := QueuedUpdate.names?_of_read read
    have apart : other ≠ b.listId := fun same => apart (same ▸ own)
    exact share_of_change sound found core
      (fun other apart => pendingFor_editedRequests_other _ apart ..) apart
      (current?_acceptedVersions_other _ apart _) post (told own changes)
  | merged answered loaded range absorbed core =>
    exact settled answered core (told answered.names changes)
  | detached answered loaded range absorbed =>
    exact settled (v := none) answered (core_reject ..) (untold changes)
  | joined answered loaded page core => exact settled answered core (told answered.names changes)
  | mispaged answered loaded page mismatch =>
    exact settled (v := none) answered (core_reject ..) (untold changes)

/-- An update that names one list leaves the share of every other. -/
theorem share_of_update? (sound : s.core.Sound) (update : m.update? s = some u)
    (apart : u.names? ≠ some other) : (s.step m).share other = s.share other := by
  obtain ⟨inbox, same⟩ := step_of_update? update
  rw [same]
  exact share_apply sound apart

/-! ## Registrations -/

/-- A registration takes out of the outbox only what waits for its list. -/
theorem share_install (sound : s.core.Sound) {list : LoadedList} (apart : other ≠ list.id)
    (version : Option Version) : (s.install list version).1.share other = s.share other := by
  have core := core_install s list version
  have post := post_install s list version
  refine share_congr ?_ ?_ ?_ ?_ (congrArg (·.heard.filter (·.listId = other)) post) ?_
  · rw [show (s.install list version).1.lists = (s.lists.insert list).1 from
      congrArg Core.lists core, s.lists.handle?_insert, if_neg apart]
  · have requests : (s.install list version).1.requests = s.requests.abandon list.id :=
      congrArg Core.requests core
    have pending : (s.install list version).1.requests.pendingFor other
        = s.requests.pendingFor other := by
      rw [requests, s.requests.pendingFor_abandon, if_neg apart]
    have list : (s.install list version).1.find? other = s.find? other :=
      (find?_install sound list version other).trans (if_neg apart)
    exact congrArg₂ Entry.mk list pending
  · rw [version?_install, if_neg apart]
  -- the outbox loses only what was asked for the list that was taken in
  · rw [show (s.install list version).1.outbox = s.outbox.filter (·.listId ≠ list.id) from
      congrArg Post.outbox post, List.filter_filter]
    refine List.filter_congr ?_
    intro f _
    by_cases own : f.listId = other <;> simp [own, apart]
  · rw [changes_install, List.filter_append]
    split
    · rw [filter_telling apart, List.append_nil]
    · exact List.append_nil _

/-- A registration leaves the share of every list but the one that it takes in. -/
theorem share_register (sound : s.core.Sound) {kindName : String} {payload : Json}
    (apart : (Move.register kindName payload).names? s ≠ some other) :
    (s.register kindName payload).1.share other = s.share other := by
  unfold register registerBy
  split
  · rfl
  · cases read : readList kindName payload with
    | error why => exact share_of_core_eq (core_reject ..) (post_reject ..) (by
        rw [changes_reject])
    | ok listVersion =>
      obtain ⟨list, version⟩ := listVersion
      refine share_install sound ?_ version
      rintro rfl
      exact apart (by rw [Move.names?, read]; rfl)

/-! ## Accesses -/

/-- What is asked for one list is not asked for another. -/
theorem share_of_asked {window : Window} {rs rs' : List Request} {kind : Kind}
    (asked : Asked s listId window rs next) (posted : Posted s listId kind rs' next)
    (still : next.still = s.still) (apart : other ≠ listId) :
    next.share other = s.share other := by
  -- the requests that were issued are all for the one list
  have none : (rs'.map Request.toFetch).filter (·.listId = other) = [] := by
    rw [List.filter_eq_nil_iff]
    intro f mem
    obtain ⟨r, new, rfl⟩ := List.mem_map.1 mem
    simp [(posted.own r new).1, apart.symm]
  refine share_congr (congrArg (·.lists.handle? other) still)
    ((asked.entry other).trans (if_neg apart)) (congrArg (·.versions.current? other) still) ?_ ?_
    (congrArg (·.changes.filter (·.listId = other)) still)
  · rw [posted.outbox, List.filter_append]
    cases s.listening <;> simp [none]
  · rw [posted.heard, List.filter_append]
    cases s.listening <;> simp [none]

/-- An access to an index of one list leaves the share of every other. -/
theorem share_ensureIndex (sound : s.core.Sound) (apart : other ≠ listId) (i : Int) :
    (s.ensureIndex listId i).1.share other = s.share other := by
  obtain ⟨rs', posted⟩ := posted_ensureIndex sound.requests listId i
  rcases ensureIndex_cases sound listId i with same | ⟨l, w, rs, -, -, -, -, asked⟩
  · rw [same]
  · exact share_of_asked asked posted (s.still_ensureIndex listId i) apart

/-- To fetch a page of one list leaves the share of every other. -/
theorem share_fetchPage (sound : s.core.Sound) (apart : other ≠ listId) (d : Direction) :
    (s.fetchPage listId d).1.share other = s.share other := by
  obtain ⟨rs', posted⟩ := posted_fetchPage sound.requests listId d
  rcases fetchPage_cases sound listId d with same | ⟨l, w, w', rs, -, -, -, asked⟩
  · rw [same]
  · exact share_of_asked asked posted (s.still_fetchPage listId d) apart

/-- An access to a position of one list leaves the share of every other. -/
theorem share_ensurePosition (sound : s.core.Sound) (apart : other ≠ listId) (position : Nat) :
    (s.ensurePosition listId position).1.share other = s.share other := by
  obtain ⟨kind, rs', posted⟩ := posted_ensurePosition sound.requests listId position
  rcases ensurePosition_cases sound listId position with
    same | ⟨l, w, -, -, same⟩ | ⟨l, w, w', rs, -, -, -, asked⟩
  · rw [same]
  · rw [same]
    exact share_ensureIndex sound apart _
  · exact share_of_asked asked posted (s.still_ensurePosition listId position) apart

/-! ## All moves -/

/-- A move that is about one list leaves what is kept of all others. -/
theorem share_step (sound : s.core.Sound) (single : m.sweeps = false)
    (apart : m.names? s ≠ some other) : (s.step m).share other = s.share other := by
  have ne {listId : ListId} (other' : some listId ≠ some other) : other ≠ listId := fun same =>
    other' (congrArg some same.symm)
  cases m with
  | register kindName payload => exact share_register sound apart
  | apply kindName payload => exact share_of_update? sound rfl apart
  | ensureIndex listId i inRange => exact share_ensureIndex sound (ne apart) i
  | ensurePosition listId position => exact share_ensurePosition sound (ne apart) position
  | fetchPage listId d => exact share_fetchPage sound (ne apart) d
  | deliver =>
    cases h : s.inbox with
    | nil => rw [show s.step .deliver = s from deliver_of_nil h]
    | cons u rest =>
      have update : Move.deliver.update? s = some u := by rw [Move.update?, h, List.head?_cons]
      refine share_of_update? sound update ?_
      simpa only [Move.names?, update, Option.bind_some] using apart
  | send kindName payload =>
    refine share_of_core_eq (core_send ..) (post_send ..) (congrArg (List.filter _) ?_)
    show (s.send kindName payload).1.changes = _
    unfold send
    split <;> rfl
  | sendText kindName text =>
    refine share_of_core_eq (core_sendText ..) (post_sendText ..) (congrArg (List.filter _) ?_)
    show (s.sendText kindName text).1.changes = _
    unfold sendText send
    split
    · rfl
    · split <;> rfl
  | takeReports | listen | unlisten => rfl
  -- these are about all lists at once
  | takeRequests | takeHeard | takeChanges | finish => cases single

/-- A run of moves that are about other lists leaves what is kept of a list. -/
theorem share_run (sound : s.core.Sound) {moves : List Move}
    (apart : s.Throughout (fun s m => m.sweeps = false ∧ m.names? s ≠ some other) moves) :
    (s.run moves).share other = s.share other := by
  induction moves generalizing s with
  | nil => rfl
  | cons m moves ih =>
    obtain ⟨⟨single, named⟩, rest⟩ := apart
    exact (ih (effects_step sound m).sound rest).trans (share_step sound single named)

/-! ## Answers under the tokens of other lists -/

/-- No request for a list is found under a token that was issued for another one. -/
theorem findRequest_of_foreign (sound : s.core.Sound) {k : Ticket}
    (known : k ∈ s.requests.tickets ∨ Spent s k.token) (foreign : listId ≠ k.listId) :
    s.findRequest listId k.token = .error (.unknownCorrelation k.token) := by
  have table : s.requests.Sound := sound.requests
  unfold findRequest
  cases found : s.requests.find? k.token with
  | none => rfl
  | some r =>
    obtain ⟨pending, named⟩ := table.find?_eq_some_iff.1 found
    have own : r.listId = k.listId := by
      rcases known with mem | spent
      · obtain ⟨r', pending', rfl⟩ := List.mem_map.1 mem
        rw [table.eq_of_token pending pending' named]
        rfl
      · exact absurd named (spent.gone _ (List.mem_map_of_mem pending))
    exact if_neg fun same => foreign (same.symm.trans own)

/-- Where no request is found for an answer, the answer is turned away without a trace. -/
theorem apply_of_unknown {kind : Kind} {answer : Update} {token : CorrelationToken}
    {l : LoadedList} (unfinished : s.finished = false)
    (read : readUpdate u.kindName u.payload = .ok (kind, answer))
    (held : s.findKind answer.listId kind = .ok l) (named : answer.token? = some token)
    (unknown : s.findRequest answer.listId token = .error (.unknownCorrelation token)) :
    s.apply u.kindName u.payload = (s, .error (.unknownCorrelation token)) := by
  simp only [apply, unfinished, read, dispatch, held, Bool.false_eq_true, if_false]
  cases answer with
  | batch b => cases named
  | range a =>
    cases named
    have checked : s.checkRange a = .error (.unknownCorrelation a.token) :=
      bind_eq_error_iff.2 (.inl unknown)
    simp only [applyRange, checked]
    rfl
  | page a =>
    cases named
    have checked : s.checkPage a = .error (.unknownCorrelation a.token) :=
      bind_eq_error_iff.2 (.inl unknown)
    simp only [applyPage, checked]
    rfl

/-- An update that no request is found for is dropped. -/
theorem drops_of_unknown {kind : Kind} {answer : Update} {token : CorrelationToken}
    (sound : s.core.Sound) (read : readUpdate u.kindName u.payload = .ok (kind, answer))
    (named : answer.token? = some token)
    (unknown : s.findRequest answer.listId token = .error (.unknownCorrelation token)) :
    Drops s u := by
  rcases drops_or_settles s u with drops | ⟨l, b, edits⟩ | ⟨answer', l, r, answered, -⟩
  · exact drops
  · obtain ⟨-, -, read', -⟩ := edits?_eq_some_iff.1 edits
    cases read.symm.trans read'
    cases named
  · -- the request that it would settle is one that is found
    cases read.symm.trans answered.read
    cases named.symm.trans answered.token
    have table : s.requests.Sound := sound.requests
    have found : s.findRequest answer.listId r.token = .ok r :=
      findRequest_eq_ok_iff.2
        ⟨table.find?_eq_some_iff.2 ⟨answered.pending, rfl⟩, answered.listId.symm⟩
    rw [found] at unknown
    cases unknown

/-- The lists of a session that has issued some tickets are kept apart. -/
structure Isolated (s : Session) (issued : List Ticket) : Prop where
  /-- A move that is about one list leaves what is kept of all others. -/
  apart : ∀ m other, m.sweeps = false → m.names? s ≠ some other →
    (s.step m).share other = s.share other
  /-- An answer under a token that was issued for another list is dropped, and the request under the
  token stays outstanding as it is. -/
  foreign : ∀ k ∈ issued, ∀ (u : QueuedUpdate) (kind : Kind) (answer : Update),
    readUpdate u.kindName u.payload = .ok (kind, answer) → answer.token? = some k.token →
    answer.listId ≠ k.listId →
      Drops s u ∧ (s.apply u.kindName u.payload).1.outstanding k.listId = s.outstanding k.listId
  /-- If the list that the answer names is there, nothing at all comes of the answer. -/
  unknown : ∀ k ∈ issued, ∀ (u : QueuedUpdate) (kind : Kind) (answer : Update) (l : LoadedList),
    readUpdate u.kindName u.payload = .ok (kind, answer) → answer.token? = some k.token →
    answer.listId ≠ k.listId → s.finished = false → s.findKind answer.listId kind = .ok l →
      s.apply u.kindName u.payload = (s, .error (.unknownCorrelation k.token))

/-- All along every run the lists of a session are kept apart. -/
theorem lists_isolated {policy : Policy} (created : create policy = .ok s) (moves : List Move) :
    Isolated (s.run moves) (s.issued moves) := by
  have sound := ((Reachable.create created).run moves).sound
  have unfound {k : Ticket} (issued : k ∈ s.issued moves) {listId : ListId}
      (foreign : listId ≠ k.listId) :
      (s.run moves).findRequest listId k.token = .error (.unknownCorrelation k.token) :=
    findRequest_of_foreign sound (pending_or_spent_of_issued (sound_create created) moves issued)
      foreign
  refine ⟨fun m other => share_step sound, ?_, ?_⟩
  · intro k issued u kind answer read named foreign
    refine ⟨drops_of_unknown sound read named (unfound issued foreign), ?_⟩
    have names : u.names? = some answer.listId := QueuedUpdate.names?_of_read read
    have apart : u.names? ≠ some k.listId := fun same =>
      foreign (Option.some.inj (names.symm.trans same))
    exact congrArg Share.outstanding (share_apply sound apart)
  · intro k issued u kind answer l read named foreign unfinished held
    exact apply_of_unknown unfinished read held named (unfound issued foreign)

/-- Two lists with an item each, of both of which the next index is accessed. -/
def askedForBoth : List Move :=
  [.register "dynamicIndexList" (.obj [("listId", .str "a"), ("startIndex", Json.ofInt 0),
      ("items", .arr [.str "x"])]),
    .register "dynamicIndexList" (.obj [("listId", .str "b"), ("startIndex", Json.ofInt 0),
      ("items", .arr [.str "y"])]),
    .ensureIndex "a" 1 inRange_one, .ensureIndex "b" 1 inRange_one]

/-- An answer for one of the lists under the token of the other one. -/
def strayAnswer : QueuedUpdate :=
  ⟨"dynamicIndexList", .obj [("listId", .str "a"), ("correlationToken", .str "102"),
    ("startIndex", Json.ofInt 1), ("items", .arr [.str "z"])]⟩

/-- The stray answer is turned away, and the request whose token it has stays outstanding. -/
theorem isolated_strayAnswer :
    (({} : Session).run askedForBoth).apply strayAnswer.kindName strayAnswer.payload
      = (({} : Session).run askedForBoth, .error (.unknownCorrelation "102"))
    ∧ (({} : Session).run askedForBoth).requests.pending
      = [⟨"101", "a", .range 1 10⟩, ⟨"102", "b", .range 1 10⟩]
    ∧ ((({} : Session).run askedForBoth).step (.fetchPage "a" .forward)).share "b"
      = (({} : Session).run askedForBoth).share "b" := by
  have isolated := lists_isolated (show create {} = .ok {} from rfl) askedForBoth
  refine ⟨?_, by decide, isolated.apart _ "b" rfl (by decide)⟩
  exact isolated.unknown ⟨"102", "b"⟩ (by decide) strayAnswer .index
    (.range ⟨"a", "102", none, 1, none, none, [.str "z"]⟩)
    ⟨"a", [.str "x"], .index ⟨none, none, 0, 1, [⟨1, 11⟩]⟩⟩ (by rfl) rfl (by decide) rfl (by rfl)

end Session

end ListSync
