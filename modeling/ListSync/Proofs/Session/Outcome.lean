import ListSync.Proofs.Payload
import ListSync.Proofs.RequestTable
import ListSync.Proofs.Session.Run

/-!
# What an update does to a session

`Session.core` is what a session knows of its lists, without what waits for the host. `Outcome`
lists all that can come of an update: it is refused and nothing is touched, or a batch or an answer
is accepted, or an answer turns out to be inconsistent once its request has been settled. By
`outcome_apply` nothing else happens, and each way says which checks the update has passed.
-/

namespace ListSync

/-- The rejections of an answer whose request was settled before. -/
def Rejection.Inconsistent : Rejection → Prop
  | inconsistentRange .. | inconsistentPage .. => True
  | _ => False

namespace Session

/-- What a session knows of its lists. -/
structure Core where
  policy : Policy
  lists : Registry
  versions : Ledger
  requests : RequestTable
  finished : Bool

/-- The core of a session. -/
def core (s : Session) : Core := ⟨s.policy, s.lists, s.versions, s.requests, s.finished⟩

/-- To tell the display of a change touches nothing that the session knows of its lists. -/
@[simp]
theorem core_publish (s : Session) (listId : ListId) (d : Diff) :
    (s.publish listId d).core = s.core := by
  unfold publish
  split <;> rfl

/-- To report a rejection touches nothing that the session knows of its lists. -/
@[simp]
theorem core_reject (s : Session) (payload : Json) (why : Rejection) :
    (s.reject payload why).core = s.core := by
  unfold reject
  split <;> rfl

/-- An update that is put to those that wait touches nothing known of the lists. -/
@[simp]
theorem core_send (s : Session) (kindName : String) (payload : Json) :
    (s.send kindName payload).1.core = s.core := by
  unfold send
  split <;> rfl

/-- A text that is put to those that wait touches nothing known of the lists. -/
@[simp]
theorem core_sendText (s : Session) (kindName text : String) :
    (s.sendText kindName text).1.core = s.core := by
  unfold sendText
  split
  · rfl
  · exact core_send ..

/-- The versions once a payload is accepted. -/
def acceptedVersions (l : Ledger) (listId : ListId) : Option Version → Ledger
  | some v => (l.tryAccept listId v).1
  | none => l

/-- A version that can be accepted is the version of the list from then on. -/
theorem current?_acceptedVersions {l : Ledger} {listId : ListId} {v : Option Version}
    (next : ∀ w ∈ v, l.wouldAccept listId w) :
    (acceptedVersions l listId v).current? listId = v.or (l.current? listId) := by
  cases v with
  | none => rfl
  | some w =>
    rw [acceptedVersions, Ledger.tryAccept_of_wouldAccept (next w rfl), Ledger.current?_assign,
      if_pos rfl, Option.some_or]

/-- An accepted payload leaves the versions of all other lists. -/
theorem current?_acceptedVersions_other (l : Ledger) {listId other : ListId}
    (apart : other ≠ listId) (v : Option Version) :
    (acceptedVersions l listId v).current? other = l.current? other := by
  cases v with
  | none => rfl
  | some v =>
    by_cases next : l.wouldAccept listId v
    · rw [acceptedVersions, Ledger.tryAccept_of_wouldAccept next, Ledger.current?_assign,
        if_neg apart]
    · rw [acceptedVersions, Ledger.tryAccept_of_not_wouldAccept next]

/-- Only the versions change when the version of a payload is noted. -/
@[simp]
theorem core_acceptVersion (s : Session) (listId : ListId) (v : Option Version) :
    (s.acceptVersion listId v).core
      = { s.core with versions := acceptedVersions s.versions listId v } := by
  cases v <;> rfl

/-! ## Checks -/

/-- A version passes the check exactly if it would be accepted. -/
theorem checkVersion_eq_ok_iff {s : Session} {listId : ListId} {v : Version} :
    s.checkVersion listId v = .ok () ↔ s.versions.wouldAccept listId v := by
  unfold checkVersion
  split <;> simp_all

/-- A list passes the look-up for a kind exactly if it is registered and of this kind. -/
theorem findKind_eq_ok_iff {s : Session} {listId : ListId} {kind : Kind} {l : LoadedList} :
    s.findKind listId kind = .ok l ↔ s.find? listId = some l ∧ l.kind = kind := by
  unfold findKind LoadedList.expect
  cases s.find? listId with
  | none => simp
  | some l' =>
    by_cases h : l'.kind = kind
    · simp only [h, if_true, Except.map, Except.ok.injEq, Option.some.injEq]
      exact ⟨fun e => ⟨e, e ▸ h⟩, And.left⟩
    · simp only [h, if_false, Except.map, reduceCtorEq, Option.some.injEq, false_iff]
      rintro ⟨rfl, e⟩
      exact h e

/-- A request is found for a list exactly if it is outstanding under the token and for this list. -/
theorem findRequest_eq_ok_iff {s : Session} {listId : ListId} {token : CorrelationToken}
    {r : Request} :
    s.findRequest listId token = .ok r ↔ s.requests.find? token = some r ∧ r.listId = listId := by
  unfold findRequest
  cases s.requests.find? token with
  | none => simp
  | some r' =>
    by_cases h : r'.listId = listId
    · simp only [h, if_true, Except.ok.injEq, Option.some.injEq]
      exact ⟨fun e => ⟨e, e ▸ h⟩, And.left⟩
    · simp only [h, if_false, reduceCtorEq, Option.some.injEq, false_iff]
      rintro ⟨rfl, e⟩
      exact h e

/-- An answer passes the check exactly if its request is outstanding and asks for a range, and its
version comes next. -/
theorem checkRange_eq_ok_iff {s : Session} {a : RangeAnswer} {asked : Span} :
    s.checkRange a = .ok asked ↔ ∃ r, s.findRequest a.listId a.token = .ok r
      ∧ r.span? = some asked ∧ s.checkVersion? a.listId a.version = .ok () := by
  unfold checkRange
  rw [bind_eq_ok_iff]
  refine exists_congr fun r => and_congr_right fun _ => ?_
  cases r.span? with
  | none => simp
  | some span =>
    rw [bind_eq_ok_iff]
    constructor
    · rintro ⟨⟨⟩, version, ⟨⟩⟩
      exact ⟨rfl, version⟩
    · rintro ⟨⟨⟩, version⟩
      exact ⟨(), version, rfl⟩

/-- An answer passes the check exactly if its request is outstanding and asks for a page, and its
version comes next. -/
theorem checkPage_eq_ok_iff {s : Session} {a : PageAnswer} {asked : String} {d : Direction} :
    s.checkPage a = .ok (asked, d) ↔ ∃ r, s.findRequest a.listId a.token = .ok r
      ∧ r.target = .page asked d ∧ s.checkVersion? a.listId a.version = .ok () := by
  unfold checkPage
  rw [bind_eq_ok_iff]
  refine exists_congr fun r => and_congr_right fun _ => ?_
  cases r.target with
  | range start count => simp
  | page page direction =>
    rw [bind_eq_ok_iff]
    constructor
    · rintro ⟨⟨⟩, version, ⟨⟩⟩
      exact ⟨rfl, version⟩
    · rintro ⟨⟨⟩, version⟩
      exact ⟨(), version, rfl⟩

/-! ## A check that fails settles nothing -/

/-- The name of no kind is refused before any request is settled. -/
theorem plain_of_parse {name : String} {why : Rejection} (h : Kind.parse name = .error why) :
    ¬why.Inconsistent := by
  unfold Kind.parse at h
  split at h <;> cases h
  exact id

/-- A payload that does not fit is refused before any request is settled. -/
theorem plain_of_fitting {α : Type} {o : Option α} {why : Rejection}
    (h : fitting o = .error why) : ¬why.Inconsistent := by
  cases o <;> cases h
  exact id

/-- An update that cannot be read is refused before any request is settled. -/
theorem plain_of_readUpdate {kindName : String} {payload : Json} {why : Rejection}
    (h : readUpdate kindName payload = .error why) : ¬why.Inconsistent := by
  rcases bind_eq_error_iff.1 h with unknown | ⟨kind, -, h⟩
  · exact plain_of_parse unknown
  rcases bind_eq_error_iff.1 h with unread | ⟨u, -, ⟨⟩⟩
  unfold Update.parse at unread
  split at unread
  · split at unread
    · rcases bind_eq_error_iff.1 unread with misfit | ⟨b, -, ⟨⟩⟩
      exact plain_of_fitting misfit
    · split at unread
      · cases kind with
        | index =>
          rcases bind_eq_error_iff.1 unread with misfit | ⟨a, -, ⟨⟩⟩
          exact plain_of_fitting misfit
        | token =>
          rcases bind_eq_error_iff.1 unread with misfit | ⟨a, -, ⟨⟩⟩
          exact plain_of_fitting misfit
      · cases unread
        exact id
  · cases unread
    exact id

section

variable {s : Session} {listId : ListId} {why : Rejection}

/-- An update for no list, or for one of the other kind, is refused before any request is settled.
-/
theorem plain_of_findKind {kind : Kind} (h : s.findKind listId kind = .error why) :
    ¬why.Inconsistent := by
  unfold findKind LoadedList.expect at h
  split at h
  · cases h
    exact id
  · split at h <;> cases h
    exact id

/-- A stale version is refused before any request is settled. -/
theorem plain_of_checkVersion {v : Version} (h : s.checkVersion listId v = .error why) :
    ¬why.Inconsistent := by
  unfold checkVersion at h
  split at h <;> cases h
  exact id

/-- A stale version that an answer carries is refused before any request is settled. -/
theorem plain_of_checkVersion? {v : Option Version} (h : s.checkVersion? listId v = .error why) :
    ¬why.Inconsistent := by
  cases v with
  | none => cases h
  | some v => exact plain_of_checkVersion h

/-- An answer to no outstanding request is refused before any request is settled. -/
theorem plain_of_findRequest {token : CorrelationToken}
    (h : s.findRequest listId token = .error why) : ¬why.Inconsistent := by
  unfold findRequest at h
  split at h
  · split at h <;> cases h
    exact id
  · cases h
    exact id

/-- An answer with a range that fails its check settles no request. -/
theorem plain_of_checkRange {a : RangeAnswer} (h : s.checkRange a = .error why) :
    ¬why.Inconsistent := by
  rcases bind_eq_error_iff.1 h with unknown | ⟨r, -, h⟩
  · exact plain_of_findRequest unknown
  split at h
  · cases h
    exact id
  · rcases bind_eq_error_iff.1 h with stale | ⟨_, -, ⟨⟩⟩
    exact plain_of_checkVersion? stale

/-- An answer with a page that fails its check settles no request. -/
theorem plain_of_checkPage {a : PageAnswer} (h : s.checkPage a = .error why) :
    ¬why.Inconsistent := by
  rcases bind_eq_error_iff.1 h with unknown | ⟨r, -, h⟩
  · exact plain_of_findRequest unknown
  split at h
  · cases h
    exact id
  · rcases bind_eq_error_iff.1 h with stale | ⟨_, -, ⟨⟩⟩
    exact plain_of_checkVersion? stale

end

/-! ## What comes of an update -/

/-- The batch that an update makes a session apply, with the list it is for. -/
def edits? (s : Session) (u : QueuedUpdate) : Option (LoadedList × Batch) :=
  if s.finished then none
  else match readUpdate u.kindName u.payload with
    | .ok (kind, .batch b) =>
      match s.findKind b.listId kind, s.checkVersion b.listId b.version with
      | .ok list, .ok () => some (list, b)
      | _, _ => none
    | _ => none

/-- The batch that a move makes a session apply, with the list it is for. -/
def Move.edits? (s : Session) (m : Move) : Option (LoadedList × Batch) :=
  (m.update? s).bind s.edits?

/-- A move makes a session apply the batch of the update that it hands over. -/
theorem Move.edits?_of_update? {s : Session} {m : Move} {u : QueuedUpdate}
    {e : LoadedList × Batch} (update : m.update? s = some u) (accepted : s.edits? u = some e) :
    m.edits? s = some e := Option.bind_eq_some_iff.2 ⟨u, update, accepted⟩

/-- The fetched range that an update makes a session settle a request with, and the range that was
asked for. -/
def answer? (s : Session) (u : QueuedUpdate) : Option (RangeAnswer × Span) :=
  if s.finished then none
  else match readUpdate u.kindName u.payload with
    | .ok (kind, .range a) =>
      match s.findKind a.listId kind, s.checkRange a with
      | .ok _, .ok asked => some (a, asked)
      | _, _ => none
    | _ => none

/-- The fetched range that a move makes a session settle a request with, and the range that was
asked for. -/
def Move.answer? (s : Session) (m : Move) : Option (RangeAnswer × Span) :=
  (m.update? s).bind s.answer?

/-- The window after a batch. -/
def editedWindow (window : Window) (delta : Int) : Window :=
  match window with
  | .index w => .index (w.adjust delta)
  | .token w => .token w

/-- The requests after a batch for a list with the given window. -/
def editedRequests (t : RequestTable) (listId : ListId) (window : Window) (delta : Int) :
    RequestTable :=
  match window with
  | .index w => t.shift listId w.stop delta
  | .token _ => t

/-- What a session knows of its lists after a batch for one of them. -/
def editedCore (s : Session) (list : LoadedList) (b : Batch) : Core :=
  { s.core with
    lists := s.lists.modify b.listId fun l =>
      { l with
        items := (applyEdits list.items b.edits).1
        window := editedWindow list.window (applyEdits list.items b.edits).2.delta }
    requests := editedRequests s.requests b.listId list.window
      (applyEdits list.items b.edits).2.delta
    versions := acceptedVersions s.versions b.listId (some b.version) }

/-- The items with a page put to them in a direction. -/
def pagedItems (d : Direction) (items page : List Item) : List Item :=
  match d with
  | .forward => items ++ page
  | .backward => page ++ items

/-- The difference that a page put to the items in a direction makes. -/
def pagedDiff (d : Direction) (items page : List Item) : Diff :=
  match d with
  | .forward => (extend items [] page).2
  | .backward => (extend items page []).2

/-- Settle a request, and change nothing of its list but the window. -/
def settleKeeping (s : Session) (r : Request) (window : Window) : Session :=
  { s with
    lists := s.lists.modify r.listId fun l => { l with window }
    requests := s.requests.settle r.token }

/-- An update that is read holds what its payload names. -/
theorem readFrom_of_readUpdate {kindName : String} {payload : Json} {kind : Kind} {update : Update}
    (read : readUpdate kindName payload = .ok (kind, update)) :
    Update.ReadFrom kind payload update := by
  obtain ⟨_, -, h⟩ := bind_eq_ok_iff.1 read
  obtain ⟨_, parsed, ⟨⟩⟩ := bind_eq_ok_iff.1 h
  exact Update.readFrom_of_parse parsed

/-- An update that answers an outstanding request passes all checks before the request is
settled. -/
structure Answered (s : Session) (u : QueuedUpdate) (answer : Update) (list : LoadedList)
    (r : Request) : Prop where
  unfinished : s.finished = false
  read : readUpdate u.kindName u.payload = .ok (list.kind, answer)
  found : s.find? r.listId = some list
  pending : r ∈ s.requests.pending
  listId : answer.listId = r.listId
  token : answer.token? = some r.token
  version : s.checkVersion? r.listId answer.version = .ok ()

/-- The answer holds what the payload names. -/
theorem Answered.readFrom {s : Session} {u : QueuedUpdate} {answer : Update} {list : LoadedList}
    {r : Request} (answered : Answered s u answer list r) :
    Update.ReadFrom list.kind u.payload answer :=
  readFrom_of_readUpdate answered.read

/-- All that can come of an update: the session after it, and what is answered. -/
inductive Outcome (s : Session) (u : QueuedUpdate) : Session → Except Rejection Applied → Prop
  /-- It is refused before anything is touched. -/
  | refused (why : Rejection) (plain : ¬why.Inconsistent) (unsettled : s.answer? u = none) :
    Outcome s u (s.reject u.payload why) (.error why)
  /-- A batch is applied. -/
  | edited {list : LoadedList} {b : Batch} {next : Session} (accepted : s.edits? u = some (list, b))
    (core : next.core = s.editedCore list b) :
    Outcome s u next (.ok ⟨b.listId, (applyEdits list.items b.edits).2.diff,
      (applyEdits list.items b.edits).2.warnings⟩)
  /-- A fetched range is put to a list. -/
  | merged {list : LoadedList} {r : Request} {a : RangeAnswer} {w window : IndexWindow}
    {asked : Span} {plan : IndexWindow.MergePlan} {next : Session}
    (answered : Answered s u (.range a) list r) (loaded : list.window = .index w)
    (range : r.span? = some asked)
    (absorbed : (w.clear asked).absorb asked a.start a.items.length a.minimum a.maximum
      = .ok (plan, window))
    (core : next.core = { s.core with
      lists := s.lists.modify r.listId fun l =>
        { l with
          items := a.items.take plan.front.stop ++ list.items ++ a.items.drop plan.back.start
          window := .index window }
      requests := s.requests.settle r.token
      versions := acceptedVersions s.versions r.listId a.version }) :
    Outcome s u next (.ok ⟨r.listId, (extend list.items (a.items.take plan.front.stop)
      (a.items.drop plan.back.start)).2, []⟩)
  /-- A fetched range does not fit. -/
  | detached {list : LoadedList} {r : Request} {a : RangeAnswer} {w : IndexWindow} {asked : Span}
    {fault : RangeFault} (answered : Answered s u (.range a) list r)
    (loaded : list.window = .index w) (range : r.span? = some asked)
    (absorbed : (w.clear asked).absorb asked a.start a.items.length a.minimum a.maximum
      = .error fault) :
    Outcome s u ((s.settleKeeping r (.index (w.clear asked))).reject u.payload
      (.inconsistentRange r.listId fault.message))
      (.error (.inconsistentRange r.listId fault.message))
  /-- A fetched page is put to a list. -/
  | joined {list : LoadedList} {r : Request} {a : PageAnswer} {w : TokenWindow} {d : Direction}
    {next : Session} (answered : Answered s u (.page a) list r)
    (loaded : list.window = .token w) (page : r.target = .page a.page d)
    (core : next.core = { s.core with
      lists := s.lists.modify r.listId fun l =>
        { l with
          items := pagedItems d list.items a.items
          window := .token ((w.clear a.page).advance d a.next) }
      requests := s.requests.settle r.token
      versions := acceptedVersions s.versions r.listId a.version }) :
    Outcome s u next (.ok ⟨r.listId, pagedDiff d list.items a.items, []⟩)
  /-- A fetched page is another one than was asked for. -/
  | mispaged {list : LoadedList} {r : Request} {a : PageAnswer} {w : TokenWindow} {asked : String}
    {d : Direction} (answered : Answered s u (.page a) list r) (loaded : list.window = .token w)
    (page : r.target = .page asked d) (other : a.page ≠ asked) :
    Outcome s u ((s.settleKeeping r (.token (w.clear asked))).reject u.payload
      (.inconsistentPage r.listId asked a.page)) (.error (.inconsistentPage r.listId asked a.page))

variable {s : Session} {u : QueuedUpdate}

/-- A batch is applied exactly if the session is at work, the list is there and of the kind, and the
version comes next. -/
theorem edits?_eq_some_iff {list : LoadedList} {b : Batch} :
    s.edits? u = some (list, b) ↔ s.finished = false ∧ s.find? b.listId = some list
      ∧ readUpdate u.kindName u.payload = .ok (list.kind, .batch b)
      ∧ s.checkVersion b.listId b.version = .ok () := by
  constructor
  · intro h
    unfold edits? at h
    cases unfinished : s.finished with
    | true => simp [unfinished] at h
    | false =>
      simp only [unfinished, Bool.false_eq_true, if_false] at h
      split at h
      · rename_i kind b' read
        split at h
        · rename_i l' found version
          cases h
          obtain ⟨found, own⟩ := findKind_eq_ok_iff.1 found
          exact ⟨rfl, found, own ▸ read, version⟩
        · cases h
      · cases h
  · rintro ⟨unfinished, found, read, version⟩
    simp only [edits?, unfinished, read, findKind_eq_ok_iff.2 ⟨found, rfl⟩, version,
      Bool.false_eq_true, if_false]

/-- What a batch of the next version does, apart from what waits for the host, and what is
answered. -/
theorem applyBatch_spec (list : LoadedList) {b : Batch}
    (version : s.checkVersion b.listId b.version = .ok ()) :
    (s.applyBatch list b).1.core = s.editedCore list b
      ∧ (s.applyBatch list b).2 = .ok ⟨b.listId, (applyEdits list.items b.edits).2.diff,
        (applyEdits list.items b.edits).2.warnings⟩ := by
  unfold applyBatch editedCore
  rw [version]
  refine ⟨?_, rfl⟩
  dsimp only
  cases list.window with
  | index w =>
    rw [core_publish, core_acceptVersion]
    rfl
  | token w =>
    rw [core_publish, core_acceptVersion]
    rfl

/-- A batch that is accepted is applied. -/
theorem apply_of_edits? {list : LoadedList} {b : Batch} (accepted : s.edits? u = some (list, b)) :
    s.apply u.kindName u.payload = s.applyBatch list b := by
  obtain ⟨unfinished, found, read, version⟩ := edits?_eq_some_iff.1 accepted
  have answer := (applyBatch_spec list version).2
  simp only [apply, unfinished, read, dispatch, Update.listId, findKind_eq_ok_iff.2 ⟨found, rfl⟩,
    Bool.false_eq_true, if_false]
  cases hb : s.applyBatch list b with
  | mk next answered =>
    rw [hb] at answer
    dsimp only at answer
    rw [answer]

/-- Report what an update was refused for. -/
def reported (payload : Json) :
    Session × Except Rejection Applied → Session × Except Rejection Applied
  | (next, .ok applied) => (next, .ok applied)
  | (next, .error why) => (next.reject payload why, .error why)

/-- A request that an answer finds is outstanding under the token of the answer. -/
theorem answered_of_findRequest {list : LoadedList} {r : Request} {answer : Update}
    {token : CorrelationToken} (unfinished : s.finished = false)
    (read : readUpdate u.kindName u.payload = .ok (list.kind, answer))
    (found : s.find? answer.listId = some list) (token_eq : answer.token? = some token)
    (asked : s.findRequest answer.listId token = .ok r)
    (version : s.checkVersion? answer.listId answer.version = .ok ()) :
    Answered s u answer list r := by
  obtain ⟨pending, own⟩ := findRequest_eq_ok_iff.1 asked
  have named : r.token = token := by simpa using List.find?_some pending
  exact ⟨unfinished, read, own ▸ found, List.mem_of_find?_eq_some pending, own.symm,
    named ▸ token_eq, own ▸ version⟩

/-- What comes of an answer with a range is one of the listed outcomes. -/
theorem outcome_applyRange {a : RangeAnswer} {list : LoadedList} (unfinished : s.finished = false)
    (read : readUpdate u.kindName u.payload = .ok (.index, .range a))
    (foundKind : s.findKind a.listId .index = .ok list) :
    Outcome s u (reported u.payload (s.applyRange list a)).1
      (reported u.payload (s.applyRange list a)).2 := by
  obtain ⟨found, kind⟩ := findKind_eq_ok_iff.1 foundKind
  unfold applyRange
  cases hc : s.checkRange a with
  | error why =>
    refine .refused why (plain_of_checkRange hc) ?_
    simp only [answer?, unfinished, read, foundKind, hc, Bool.false_eq_true, if_false]
  | ok asked =>
    obtain ⟨r, request, span, version⟩ := checkRange_eq_ok_iff.1 hc
    have answered : Answered s u (.range a) list r :=
      answered_of_findRequest unfinished (kind ▸ read) found rfl request version
    have named : r.token = a.token := Option.some.inj answered.token.symm
    have own : r.listId = a.listId := answered.listId.symm
    cases hw : list.window with
    | token w =>
      -- the list was found as an index list
      rw [LoadedList.kind, hw] at kind
      cases kind
    | index w =>
      dsimp only
      rw [← named, ← own]
      cases ha : (w.clear asked).absorb asked a.start a.items.length a.minimum a.maximum with
      | error fault => exact .detached answered hw span ha
      | ok absorbed =>
        refine .merged answered hw span ha ?_
        dsimp only [reported]
        rw [core_publish, core_acceptVersion]
        rfl

/-- What an answer with the page that was asked for does, apart from what waits for the host, and
what is answered. -/
theorem applyPage_spec {a : PageAnswer} {list : LoadedList} {w : TokenWindow} {d : Direction}
    (checked : s.checkPage a = .ok (a.page, d)) (loaded : list.window = .token w) :
    (s.applyPage list a).1.core = { s.core with
      lists := s.lists.modify a.listId fun l =>
        { l with
          items := pagedItems d list.items a.items
          window := .token ((w.clear a.page).advance d a.next) }
      requests := s.requests.settle a.token
      versions := acceptedVersions s.versions a.listId a.version }
      ∧ (s.applyPage list a).2 = .ok ⟨a.listId, pagedDiff d list.items a.items, []⟩ := by
  simp only [applyPage, checked, loaded, ne_eq, not_true_eq_false, if_false]
  cases d with
  | forward =>
    refine ⟨?_, rfl⟩
    rw [core_publish, core_acceptVersion]
    rfl
  | backward =>
    have put : a.items ++ list.items = (extend list.items a.items []).1 :=
      (List.append_nil _).symm
    refine ⟨?_, rfl⟩
    rw [core_publish, core_acceptVersion, pagedItems, put]
    rfl

/-- What comes of an answer with a page is one of the listed outcomes. -/
theorem outcome_applyPage {a : PageAnswer} {list : LoadedList} (unfinished : s.finished = false)
    (read : readUpdate u.kindName u.payload = .ok (.token, .page a))
    (found : s.findKind a.listId .token = .ok list) :
    Outcome s u (reported u.payload (s.applyPage list a)).1
      (reported u.payload (s.applyPage list a)).2 := by
  obtain ⟨found, kind⟩ := findKind_eq_ok_iff.1 found
  cases hc : s.checkPage a with
  | error why =>
    unfold applyPage
    rw [hc]
    refine .refused why (plain_of_checkPage hc) ?_
    simp only [answer?, unfinished, read, Bool.false_eq_true, if_false]
  | ok asked =>
    obtain ⟨asked, d⟩ := asked
    obtain ⟨r, request, target, version⟩ := checkPage_eq_ok_iff.1 hc
    have answered : Answered s u (.page a) list r :=
      answered_of_findRequest unfinished (kind ▸ read) found rfl request version
    have named : r.token = a.token := Option.some.inj answered.token.symm
    have own : r.listId = a.listId := answered.listId.symm
    cases hw : list.window with
    | index w =>
      -- the list was found as a token list
      rw [LoadedList.kind, hw] at kind
      cases kind
    | token w =>
      by_cases hp : a.page = asked
      · subst hp
        obtain ⟨core, answer⟩ := applyPage_spec hc hw
        rw [← named, ← own] at core
        rw [← own] at answer
        cases applied : s.applyPage list a with
        | mk next outcome =>
          rw [applied] at core answer
          dsimp only at core answer
          subst answer
          exact .joined answered hw target core
      · unfold applyPage
        rw [hc, hw]
        dsimp only
        rw [← named, ← own]
        simp only [ne_eq, hp, not_false_eq_true, if_true]
        exact .mispaged answered hw target hp

/-- Nothing else comes of an update. -/
theorem outcome_apply (s : Session) (u : QueuedUpdate) :
    Outcome s u (s.apply u.kindName u.payload).1 (s.apply u.kindName u.payload).2 := by
  unfold apply
  cases unfinished : s.finished with
  | true => exact .refused .finished id (by simp only [answer?, unfinished, if_true])
  | false =>
    simp only [Bool.false_eq_true, if_false]
    cases read : readUpdate u.kindName u.payload with
    | error why =>
      refine .refused why (plain_of_readUpdate read) ?_
      simp only [answer?, unfinished, read, Bool.false_eq_true, if_false]
    | ok kindUpdate =>
      obtain ⟨kind, update⟩ := kindUpdate
      -- from here on the update is dispatched, and what that refuses is reported
      show Outcome s u (reported u.payload (s.dispatch kind update)).1
        (reported u.payload (s.dispatch kind update)).2
      have fits := (readFrom_of_readUpdate read).kind_eq
      unfold dispatch
      cases found : s.findKind update.listId kind with
      | error why =>
        refine .refused why (plain_of_findKind found) ?_
        cases update with
        | range a =>
          have found : s.findKind a.listId kind = .error why := found
          simp only [answer?, unfinished, read, found, Bool.false_eq_true, if_false]
        | _ => simp only [answer?, unfinished, read, Bool.false_eq_true, if_false]
      | ok list =>
        cases update with
        | batch b =>
          dsimp only
          cases version : s.checkVersion b.listId b.version with
          | error why =>
            rw [applyBatch, version]
            refine .refused why (plain_of_checkVersion version) ?_
            simp only [answer?, unfinished, read, Bool.false_eq_true, if_false]
          | ok _ =>
            obtain ⟨core, answer⟩ := applyBatch_spec list version
            obtain ⟨found, own⟩ := findKind_eq_ok_iff.1 found
            have accepted : s.edits? u = some (list, b) :=
              edits?_eq_some_iff.2 ⟨unfinished, found, own ▸ read, version⟩
            cases hb : s.applyBatch list b with
            | mk next answered =>
              rw [hb] at core answer
              dsimp only at core answer
              rw [answer]
              exact .edited accepted core
        | range a =>
          cases fits .index rfl
          exact outcome_applyRange unfinished read found
        | page a =>
          cases fits .token rfl
          exact outcome_applyPage unfinished read found

/-- The list and the request of an answer are found by what the answer says. -/
theorem Answered.finds (sound : s.requests.Sound) {answer : Update} {list : LoadedList}
    {r : Request} {token : CorrelationToken} (answered : Answered s u answer list r)
    (tokened : answer.token? = some token) :
    s.findKind answer.listId list.kind = .ok list
      ∧ s.findRequest answer.listId token = .ok r
      ∧ s.checkVersion? answer.listId answer.version = .ok () := by
  have named : r.token = token := Option.some.inj (answered.token.symm.trans tokened)
  have own := answered.listId
  exact ⟨findKind_eq_ok_iff.2 ⟨own ▸ answered.found, rfl⟩,
    findRequest_eq_ok_iff.2 ⟨sound.find?_eq_some_iff.2 ⟨answered.pending, named⟩, own.symm⟩,
    own ▸ answered.version⟩

/-- A page that is asked for and not yet settled is put to the list. -/
theorem apply_of_page (sound : s.requests.Sound) {a : PageAnswer} {list : LoadedList} {r : Request}
    {w : TokenWindow} {d : Direction} (answered : Answered s u (.page a) list r)
    (loaded : list.window = .token w) (page : r.target = .page a.page d) :
    s.checkPage a = .ok (a.page, d) ∧ s.apply u.kindName u.payload = s.applyPage list a := by
  obtain ⟨found, request, version⟩ := answered.finds sound rfl
  rw [Update.listId] at found
  have checked : s.checkPage a = .ok (a.page, d) :=
    checkPage_eq_ok_iff.2 ⟨r, request, page, version⟩
  have answer := (applyPage_spec checked loaded).2
  refine ⟨checked, ?_⟩
  simp only [apply, answered.unfinished, answered.read, dispatch, Update.listId, found,
    Bool.false_eq_true, if_false]
  cases applied : s.applyPage list a with
  | mk next outcome =>
    rw [applied] at answer
    dsimp only at answer
    rw [answer]

/-- A range that is asked for and not yet settled is found under the token of its answer. -/
theorem answer?_of_answered (sound : s.requests.Sound) {a : RangeAnswer} {list : LoadedList}
    {r : Request} {asked : Span} (answered : Answered s u (.range a) list r)
    (range : r.span? = some asked) : s.answer? u = some (a, asked) := by
  obtain ⟨found, request, version⟩ := answered.finds sound rfl
  rw [Update.listId] at found
  have checked : s.checkRange a = .ok asked :=
    checkRange_eq_ok_iff.2 ⟨r, request, range, version⟩
  simp only [answer?, answered.unfinished, answered.read, found, checked, Bool.false_eq_true,
    if_false]

/-- An update is read in one way only. -/
theorem Answered.eq_of_read {answer update : Update} {l : LoadedList} {r : Request} {kind : Kind}
    (answered : Answered s u answer l r)
    (read : readUpdate u.kindName u.payload = .ok (kind, update)) : update = answer := by
  rw [answered.read] at read
  exact (Prod.mk.inj (Except.ok.inj read)).2.symm

/-- An update answers one request only. -/
theorem Answered.unique (sound : s.requests.Sound) {a a' : RangeAnswer} {l l' : LoadedList}
    {r r' : Request} (answered : Answered s u (.range a) l r)
    (answered' : Answered s u (.range a') l' r') : a = a' ∧ l = l' ∧ r = r' := by
  cases answered.eq_of_read answered'.read
  obtain rfl := sound.eq_of_token answered.pending answered'.pending
    (Option.some.inj (answered.token.symm.trans answered'.token))
  exact ⟨rfl, Option.some.inj (answered.found.symm.trans answered'.found), rfl⟩

/-- What comes of an answer with a range that passes all checks: the range is put to the list, or it
does not fit, and then the request is settled all the same. -/
theorem apply_of_range (sound : s.requests.Sound) {a : RangeAnswer} {l : LoadedList} {r : Request}
    {w : IndexWindow} {asked : Span} (answered : Answered s u (.range a) l r)
    (loaded : l.window = .index w) (range : r.span? = some asked) :
    (∃ plan window, (w.clear asked).absorb asked a.start a.items.length a.minimum a.maximum
        = .ok (plan, window)
      ∧ (s.apply u.kindName u.payload).1.core = { s.core with
        lists := s.lists.modify r.listId fun l' =>
          { l' with
            items := a.items.take plan.front.stop ++ l.items ++ a.items.drop plan.back.start
            window := .index window }
        requests := s.requests.settle r.token
        versions := acceptedVersions s.versions r.listId a.version }
      ∧ (s.apply u.kindName u.payload).2 = .ok ⟨r.listId, (extend l.items
        (a.items.take plan.front.stop) (a.items.drop plan.back.start)).2, []⟩)
    ∨ ∃ fault, (w.clear asked).absorb asked a.start a.items.length a.minimum a.maximum
        = .error fault
      ∧ s.apply u.kindName u.payload = ((s.settleKeeping r (.index (w.clear asked))).reject
        u.payload (.inconsistentRange r.listId fault.message),
        .error (.inconsistentRange r.listId fault.message)) := by
  have outcome := outcome_apply s u
  generalize s.apply u.kindName u.payload = result at outcome ⊢
  obtain ⟨next, answer⟩ := result
  dsimp only at outcome ⊢
  -- the token leads to one request only, so of all outcomes the two with that request remain
  cases outcome with
  | refused why plain unsettled =>
    rw [answer?_of_answered sound answered range] at unsettled
    cases unsettled
  | edited accepted _ =>
    obtain ⟨-, -, read, -⟩ := edits?_eq_some_iff.1 accepted
    cases answered.eq_of_read read
  | merged answered' loaded' range' absorbed core =>
    obtain ⟨rfl, rfl, rfl⟩ := answered.unique sound answered'
    cases loaded.symm.trans loaded'
    cases range.symm.trans range'
    exact .inl ⟨_, _, absorbed, core, rfl⟩
  | detached answered' loaded' range' absorbed =>
    obtain ⟨rfl, rfl, rfl⟩ := answered.unique sound answered'
    cases loaded.symm.trans loaded'
    cases range.symm.trans range'
    exact .inr ⟨_, absorbed, rfl⟩
  | joined answered' _ _ _ => cases answered.eq_of_read answered'.read
  | mispaged answered' _ _ _ => cases answered.eq_of_read answered'.read

/-- The token of an answer that settles a request finds it. -/
theorem checked_of_answer? {a : RangeAnswer} {asked : Span} (h : s.answer? u = some (a, asked)) :
    ∃ kind, readUpdate u.kindName u.payload = .ok (kind, .range a)
      ∧ s.checkRange a = .ok asked := by
  unfold answer? at h
  split at h
  · cases h
  · split at h
    · rename_i kind a' read
      split at h
      · rename_i checked
        cases h
        exact ⟨kind, read, checked⟩
      · cases h
    · cases h

end Session

end ListSync
