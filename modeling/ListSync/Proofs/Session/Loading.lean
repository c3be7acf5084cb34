import ListSync.Proofs.Plan
import ListSync.Proofs.Session.Outbox

/-!
# A session that loads more of a list

A session has loaded a part of an index list, asks for more of it, and takes in the answers.
`Loads` says how it stands. Each request that is outstanding is one of those that were taken from
it, which all have different tokens (`Logged`), so that an answer to one of these is an answer to
what was asked for or to nothing. And what is outstanding touches the loaded items (`Touches`): it
did so when it was asked for, and the loaded items only become more. Accesses keep this
(`Loads.want`), and so do answers, whether or not they are taken up (`Loads.receive`).
-/

namespace ListSync

/-- A request asks for a range that touches the loaded items or overlaps them. -/
structure Touches (w : IndexWindow) (r : Request) (start : Int) (count : Nat) : Prop where
  target : r.target = .range start count
  first : Index.InRange start
  proper : 0 < count
  room : start + count ≤ Index.greatest
  behind : start ≤ w.start + w.count
  before : w.start ≤ start + count

/-- What touches the loaded items does so when there are more of them. -/
theorem Touches.grow {w w' : IndexWindow} {r : Request} {start : Int} {count : Nat}
    (h : Touches w r start count) (front : w'.start ≤ w.start)
    (back : w.start + w.count ≤ w'.start + w'.count) : Touches w' r start count :=
  ⟨h.target, h.first, h.proper, h.room, Int.le_trans h.behind back, Int.le_trans front h.before⟩

/-- The range that an answer to a request is held against. -/
def Target.span (start : Int) (count : Nat) : Span :=
  ⟨start, Index.add start (Index.wrapCount count)⟩

theorem Touches.span? {w : IndexWindow} {r : Request} {start : Int} {count : Nat}
    (h : Touches w r start count) : r.span? = some (Target.span start count) := by
  rw [Request.span?, h.target, Target.span]

namespace IndexWindow

/-- The loaded items only become more by a fetched range. -/
theorem grows_of_absorb {w next : IndexWindow} {start : Int} {count : Nat} {asked : Span}
    {lo hi : Option Int} {p : MergePlan} (placed : Index.Placed w.start w.count)
    (inRange : Index.InRange start) (room : start + count ≤ Index.greatest)
    (h : w.absorb asked start count lo hi = .ok (p, next)) :
    next.start ≤ w.start ∧ w.start + w.count ≤ next.start + next.count := by
  rcases absorb_cases placed inRange room h with idle | ⟨-, -, begins, ends⟩
  · rw [idle.start, idle.count]
    exact ⟨Int.le_refl _, Int.le_refl _⟩
  · exact ⟨begins ▸ Int.min_le_right .., ends ▸ Int.le_max_right ..⟩

end IndexWindow

namespace Session

variable {s : Session} {listId : ListId} {asked : List FetchRequest} {l : LoadedList}
  {w : IndexWindow}

/-- The requests that were taken from a session have tokens of their own, and all requests that are
outstanding for a list are among them. -/
structure Logged (s : Session) (listId : ListId) (asked : List FetchRequest) : Prop where
  issued : ∀ f ∈ asked, ∃ n ≤ s.requests.counter, f.token = tokenText n
  distinct : (asked.map (·.token)).Nodup
  pending : ∀ r ∈ (s.entry listId).requests, r.toFetch ∈ asked

/-- An outstanding request with the token of one that was taken is that one. -/
theorem Logged.toFetch_eq (logged : s.Logged listId asked) {f : FetchRequest} (taken : f ∈ asked)
    {r : Request} (pending : r ∈ (s.entry listId).requests) (same : r.token = f.token) :
    r.toFetch = f :=
  List.inj_on_of_nodup_map logged.distinct (logged.pending r pending) taken
    (r.token_toFetch.trans same)

/-- No request that is taken later has the token of an earlier one. -/
theorem Logged.fresh {new : List FetchRequest} (logged : s.Logged listId (asked ++ new))
    {token : CorrelationToken} (old : token ∈ asked.map (·.token)) :
    token ∉ new.map (·.token) := by
  have distinct := logged.distinct
  rw [List.map_append, List.nodup_append] at distinct
  exact fun new => distinct.2.2 token old token new rfl

/-- What is noted as outstanding for a list is what is posted. -/
theorem Asked.eq_of_posted {next : Session} {window : Window} {kind : Kind} {rs rs' : List Request}
    (issued : Asked s listId window rs next) (posted : Posted s listId kind rs' next) :
    rs = rs' ∧ (next.entry listId).requests = (s.entry listId).requests ++ rs := by
  have entry := issued.entry listId
  rw [if_pos rfl] at entry
  have requests := congrArg Entry.requests entry
  exact ⟨List.append_cancel_left (requests.symm.trans posted.pendingFor), requests⟩

/-- Requests that are posted are taken under tokens of their own. -/
theorem Logged.append {next : Session} {rs : List Request} (logged : s.Logged listId asked)
    (grows : RequestTable.Grows s.requests next.requests (rs.map Request.ticket))
    (requests : (next.entry listId).requests = (s.entry listId).requests ++ rs) :
    next.Logged listId (asked ++ rs.map Request.toFetch) := by
  have texts : (rs.map Request.toFetch).map (·.token)
      = (List.range' (s.requests.counter + 1) rs.length).map tokenText := by
    have tokens := grows.tokens
    rw [List.map_map, List.length_map] at tokens
    rw [Request.map_token_toFetch, ← tokens]
    rfl
  have numbered (f : FetchRequest) (hf : f ∈ rs.map Request.toFetch) :
      ∃ n, s.requests.counter < n ∧ n ≤ next.requests.counter ∧ f.token = tokenText n := by
    have token := List.mem_map_of_mem (f := (·.token)) hf
    rw [texts] at token
    obtain ⟨n, hn, token⟩ := List.mem_map.1 token
    obtain ⟨i, bound, rfl⟩ := List.mem_range'.1 hn
    have counter := grows.counter
    rw [List.length_map] at counter
    exact ⟨_, by omega, by omega, token.symm⟩
  refine ⟨?_, ?_, ?_⟩
  · intro f hf
    rcases List.mem_append.1 hf with old | new
    · obtain ⟨n, le, token⟩ := logged.issued f old
      have counter := grows.counter
      exact ⟨n, by omega, token⟩
    · obtain ⟨n, -, le, token⟩ := numbered f new
      exact ⟨n, le, token⟩
  · rw [List.map_append, List.nodup_append]
    refine ⟨logged.distinct, ?_, ?_⟩
    · rw [texts]
      exact List.Nodup.map (fun _ _ => tokenText_inj) List.nodup_range'
    -- a token that was taken before has a number that the counter has passed
    · simp only [List.mem_map]
      rintro _ ⟨f, old, rfl⟩ _ ⟨f', new, rfl⟩ same
      obtain ⟨n, le, token⟩ := logged.issued f old
      obtain ⟨n', lt, -, token'⟩ := numbered f' (List.mem_map.2 new)
      have := tokenText_inj (token.symm.trans (same.trans token'))
      omega
  · intro r hr
    rw [requests] at hr
    rcases List.mem_append.1 hr with old | new
    · exact List.mem_append_left _ (logged.pending r old)
    · exact List.mem_append_right _ (List.mem_map_of_mem new)

/-- No new request is taken when some are settled. -/
theorem Logged.settle {next : Session} (logged : s.Logged listId asked)
    (counter : next.requests.counter = s.requests.counter)
    (requests : ∀ r ∈ (next.entry listId).requests, r ∈ (s.entry listId).requests) :
    next.Logged listId asked :=
  ⟨counter ▸ logged.issued, logged.distinct, fun r hr => logged.pending r (requests r hr)⟩

/-- A request asks for some items of an index list that all can have an index. -/
def Proper (listId : ListId) (f : FetchRequest) : Prop :=
  ∃ start count, f = .range f.token listId start count ∧ Index.InRange start ∧ 0 < count
    ∧ start + count ≤ Index.greatest

/-- A session has loaded a part of an index list, and all that it waits for touches that part. -/
structure Loads (s : Session) (listId : ListId) (asked : List FetchRequest) (l : LoadedList)
    (w : IndexWindow) : Prop where
  sound : s.core.Sound
  found : s.find? listId = some l
  loaded : l.window = .index w
  fits : Fits l w
  logged : s.Logged listId asked
  proper : ∀ f ∈ asked, Proper listId f
  touches : ∀ r ∈ (s.entry listId).requests, ∃ start count, Touches w r start count

theorem Loads.placed (loads : s.Loads listId asked l w) : Index.Placed w.start w.count :=
  loads.fits.valid.placed loads.fits.start

theorem Loads.stop (loads : s.Loads listId asked l w) : w.stop = w.start + w.count :=
  IndexWindow.stop_eq loads.placed

/-- A session that has registered a list has asked for nothing yet. -/
theorem loads_register {p : IndexListing} (sound : s.core.Sound)
    (unfinished : s.finished = false) (inRange : (Listing.index p).InRange)
    (version : ∀ v ∈ p.version, v ≤ maxCount) (valid : p.window.fault? = none) :
    (s.register Kind.index.name (Listing.index p).toJson).1.Loads p.listId [] p.list p.window := by
  have registered := register_listing unfinished inRange version valid
  have found : (s.install p.list p.version).1.find? p.listId = some p.list :=
    (find?_install sound ..).trans (if_pos rfl)
  have none : ((s.install p.list p.version).1.entry p.listId).requests = [] := by
    rw [entry, core_install]
    exact (s.requests.pendingFor_abandon ..).trans (if_pos rfl)
  have sound' := (effects_step sound (.register Kind.index.name (Listing.index p).toJson)).sound
  rw [step] at sound'
  rw [registered] at sound' ⊢
  refine ⟨sound', found, rfl,
    ⟨inRange.1, rfl, (IndexWindow.fault?_eq_none_iff _).1 valid⟩,
    ⟨by simp, List.nodup_nil, ?_⟩, by simp, ?_⟩
  · rw [none]
    simp
  · rw [none]
    simp

/-! ## Accesses -/

/-- The requests that were handed out on the way to a later session, to a listener or in the outbox.
-/
def handedOut (s next : Session) : List FetchRequest :=
  next.heard.drop s.heard.length ++ next.outbox.drop s.outbox.length

/-- What a listener has received and what waits in the outbox is taken from a session. -/
def emptied (s : Session) : Session := { s with heard := [], outbox := [] }

/-- An index of a list is wanted, and what is then handed out is taken. -/
def want (s : Session) (listId : ListId) (i : Int) : Session × List FetchRequest :=
  let next := (s.ensureIndex listId i).1
  (next.emptied, s.handedOut next)

/-- The item at a position is wanted, and what is then handed out is taken. -/
def wantPosition (s : Session) (listId : ListId) (position : Nat) : Session × List FetchRequest :=
  let next := (s.ensurePosition listId position).1
  (next.emptied, s.handedOut next)

/-- All that is posted is handed out. -/
theorem Posted.handedOut {kind : Kind} {rs : List Request} {next : Session}
    (posted : Posted s listId kind rs next) :
    s.handedOut next = rs.map Request.toFetch := by
  rw [Session.handedOut, posted.heard, posted.outbox, List.drop_left, List.drop_left]
  cases s.listening
  · rfl
  · exact List.append_nil _

/-- Each of the requests for some ranges asks for one of them. -/
theorem range_of_targets {rs : List Request} {ranges : List Span} (targets : rs.map (·.target)
      = ranges.map fun range => .range range.start range.length) {r : Request} (hr : r ∈ rs) :
    ∃ range ∈ ranges, r.target = .range range.start range.length := by
  have target : r.target ∈ rs.map (·.target) := List.mem_map_of_mem hr
  rw [targets] at target
  obtain ⟨range, planned, target⟩ := List.mem_map.1 target
  exact ⟨range, planned, target.symm⟩

/-- A planned range is asked for as it is, and touches the loaded items. -/
theorem Loads.touches_plan (loads : s.Loads listId asked l w) {i : Int}
    (inRange : Index.InRange i) {rs : List Request}
    (targets : rs.map (·.target)
      = (w.plan s.policy i).map fun range => .range range.start range.length) {r : Request}
    (hr : r ∈ rs) : ∃ start count, Touches w r start count := by
  obtain ⟨range, planned, target⟩ := range_of_targets targets hr
  obtain ⟨first, last, proper⟩ := IndexWindow.inRange_of_plan loads.fits.start inRange planned
  have borders := IndexWindow.borders_of_plan inRange planned
  have length : (range.length : Int) = range.stop - range.start := by
    rw [Span.length]
    omega
  have stop := loads.stop
  refine ⟨_, _, target, first, ?_, ?_, ?_, ?_⟩
  · omega
  · rw [length]
    have := last.2
    omega
  · omega
  · omega

/-- To want an index is to be handed new requests, for the ranges that it calls for, and to mark
these as in flight. -/
theorem Loads.want (loads : s.Loads listId asked l w) {i : Int} (inRange : Index.InRange i) :
    ∃ rs : List Request, (s.want listId i).2 = rs.map Request.toFetch
      ∧ rs.map (·.target)
        = (w.plan s.policy i).map (fun range => .range range.start range.length)
      ∧ (∀ r ∈ rs, r.listId = listId)
      ∧ ((s.want listId i).1.entry listId).requests = (s.entry listId).requests ++ rs
      ∧ (s.want listId i).1.Loads listId (asked ++ rs.map Request.toFetch)
        { l with window := .index { w with inFlight := w.inFlight ++ w.plan s.policy i } }
        { w with inFlight := w.inFlight ++ w.plan s.policy i } := by
  obtain ⟨rs, targets, -, issued⟩ :=
    asked_fetchRanges loads.sound loads.found loads.loaded (w.plan s.policy i)
  obtain ⟨rs', posted⟩ :=
    posted_fetchRanges loads.sound.requests listId (w.plan s.policy i)
  -- what was asked for and what was posted are the same requests
  obtain ⟨rfl, requests⟩ := issued.eq_of_posted posted
  rw [Session.want, ensureIndex_of_loaded (loads.sound.unfinished loads.found) loads.found
    loads.loaded]
  refine ⟨rs, posted.handedOut, targets, fun r h => (posted.own r h).1, requests, issued.sound,
    issued.found loads.found, rfl, loads.fits.withInFlight _ _, ?_, ?_, ?_⟩
  · obtain ⟨issued, distinct, pending⟩ := loads.logged.append posted.grows requests
    exact ⟨issued, distinct, pending⟩
  · refine List.forall_mem_append.2 ⟨loads.proper, ?_⟩
    intro f hf
    obtain ⟨r, hr, rfl⟩ := List.mem_map.1 hf
    obtain ⟨start, count, touches⟩ := loads.touches_plan inRange targets hr
    refine ⟨start, count, ?_, touches.first, touches.proper, touches.room⟩
    rw [r.token_toFetch, Request.toFetch, touches.target, (posted.own r hr).1]
  · intro r hr
    have outstanding : r ∈ (s.entry listId).requests ++ rs := requests.subst (motive := (r ∈ ·)) hr
    -- a range that touched the window still does, as asking for more never moves it
    have touches : ∃ start count, Touches w r start count := by
      rcases List.mem_append.1 outstanding with old | new
      · exact loads.touches r old
      · exact loads.touches_plan inRange targets new
    obtain ⟨start, count, touches⟩ := touches
    exact ⟨start, count, touches.grow (Int.le_refl _) (Int.le_refl _)⟩

/-- To want an item by its position is to want its index. -/
theorem Loads.wantPosition_eq (loads : s.Loads listId asked l w) (position : Nat) :
    s.wantPosition listId position
      = s.want listId (Index.add w.start (Index.wrapCount position)) := by
  have index : s.ensurePosition listId position
      = s.ensureIndex listId (Index.add w.start (Index.wrapCount position)) := by
    have unfinished : s.finished = false := loads.sound.unfinished loads.found
    simp only [ensurePosition, unfinished, loads.found, loads.loaded, Bool.false_eq_true, if_false]
  rw [wantPosition, Session.want, index]

/-! ## Answers -/

/-- A request with a token is outstanding for a list. -/
def Open (s : Session) (listId : ListId) (token : CorrelationToken) : Prop :=
  ∃ r ∈ (s.entry listId).requests, r.token = token

/-- The tokens that are outstanding once some requests are posted. -/
theorem open_of_append {next : Session} {rs : List Request}
    (posted : (next.entry listId).requests = (s.entry listId).requests ++ rs)
    (token : CorrelationToken) :
    next.Open listId token
      ↔ s.Open listId token ∨ token ∈ (rs.map Request.toFetch).map (·.token) := by
  rw [Request.map_token_toFetch, Open, posted]
  simp only [List.mem_append, or_and_right, exists_or, List.mem_map]
  rfl

/-- All that can come of an answer to a request for `count` items from `start` on. -/
inductive Receipt (s : Session) (listId : ListId) (l : LoadedList) (w : IndexWindow)
    (a : RangeAnswer) (start : Int) (count : Nat) (next : Session) :
    Except Rejection Applied → LoadedList → IndexWindow → Prop
  /-- The request was settled before. -/
  | late (why : Rejection) (settled : ∀ r ∈ (s.entry listId).requests, r.token ≠ a.token)
    (entry : next.entry listId = s.entry listId) :
    Receipt s listId l w a start count next (.error why) l w
  /-- The fetched items are put to the loaded ones. -/
  | absorbed {r : Request} {p : IndexWindow.MergePlan} {w' : IndexWindow} (applied : Applied)
    (pending : r ∈ (s.entry listId).requests) (named : r.token = a.token)
    (touches : Touches w r start count)
    (absorbed : (w.clear (Target.span start count)).absorb (Target.span start count) a.start
      a.items.length a.minimum a.maximum = .ok (p, w'))
    (entry : next.entry listId = ⟨some { l with
        items := a.items.take p.front.stop ++ l.items ++ a.items.drop p.back.start
        window := .index w' }, (s.entry listId).requests.erase r⟩) :
    Receipt s listId l w a start count next (.ok applied) { l with
      items := a.items.take p.front.stop ++ l.items ++ a.items.drop p.back.start
      window := .index w' } w'
  /-- The fetched items do not fit. -/
  | detached {r : Request} {fault : RangeFault} (why : Rejection)
    (pending : r ∈ (s.entry listId).requests) (named : r.token = a.token)
    (touches : Touches w r start count)
    (absorbed : (w.clear (Target.span start count)).absorb (Target.span start count) a.start
      a.items.length a.minimum a.maximum = .error fault)
    (entry : next.entry listId = ⟨some
        { l with window := .index (w.clear (Target.span start count)) },
        (s.entry listId).requests.erase r⟩) :
    Receipt s listId l w a start count next (.error why)
      { l with window := .index (w.clear (Target.span start count)) }
      (w.clear (Target.span start count))

/-- An answer to nothing that is outstanding changes nothing that the session knows. -/
theorem refused_of_settled {kindName : String} {payload : Json} {kind : Kind} {answer : Update}
    {token : CorrelationToken} (read : readUpdate kindName payload = .ok (kind, answer))
    (carried : answer.token? = some token)
    (settled : ∀ r ∈ (s.entry answer.listId).requests, r.token ≠ token) :
    ∃ why, (s.apply kindName payload).2 = .error why
      ∧ (s.apply kindName payload).1.core = s.core := by
  -- an answer that passes all checks names an outstanding request
  have unanswered {answer' : Update} {l : LoadedList} {r : Request}
      (answered : Answered s ⟨kindName, payload⟩ answer' l r) : False := by
    obtain rfl := (Prod.mk.inj (Except.ok.inj (read.symm.trans answered.read))).2
    exact settled r (RequestTable.mem_pendingFor.2 ⟨answered.pending, answered.listId.symm⟩)
      (Option.some.inj (answered.token.symm.trans carried))
  have outcome := outcome_apply s ⟨kindName, payload⟩
  dsimp only at outcome
  generalize s.apply kindName payload = result at outcome ⊢
  obtain ⟨next, answer'⟩ := result
  dsimp only at outcome ⊢
  cases outcome with
  | refused why plain unsettled => exact ⟨why, rfl, core_reject ..⟩
  | edited accepted _ =>
    obtain ⟨-, -, read', -⟩ := edits?_eq_some_iff.1 accepted
    obtain rfl := (Prod.mk.inj (Except.ok.inj (read.symm.trans read'))).2
    cases carried
  | merged answered => exact (unanswered answered).elim
  | detached answered => exact (unanswered answered).elim
  | joined answered => exact (unanswered answered).elim
  | mispaged answered => exact (unanswered answered).elim

/-- An answer to a request that is settled already is refused and changes nothing of the lists. -/
theorem late_of_settled {a : RangeAnswer} (inRange : a.InRange) (version : a.version = none)
    (settled : ∀ r ∈ (s.entry a.listId).requests, r.token ≠ a.token) :
    ∃ why, (s.apply Kind.index.name a.toJson).2 = .error why
      ∧ (s.apply Kind.index.name a.toJson).1.core = s.core := by
  have parsed := Update.parse_toJson_range inRange (by simp [version])
  have read : readUpdate Kind.index.name a.toJson = .ok (.index, .range a) :=
    bind_eq_ok_iff.2 ⟨.index, rfl, bind_eq_ok_iff.2 ⟨_, parsed, rfl⟩⟩
  exact refused_of_settled read rfl settled

/-- The tokens that are outstanding once a request is settled. -/
theorem open_of_erase {next : Session} (sound : s.core.Sound) {r : Request}
    (pending : r ∈ (s.entry listId).requests)
    (settled : (next.entry listId).requests = (s.entry listId).requests.erase r)
    (token : CorrelationToken) :
    next.Open listId token ↔ s.Open listId token ∧ token ≠ r.token := by
  have nodup : (s.entry listId).requests.Nodup :=
    (List.Nodup.of_map _ sound.requests.distinct).filter _
  rw [Open, settled]
  constructor
  · rintro ⟨r', hr', rfl⟩
    obtain ⟨apart, hr'⟩ := nodup.mem_erase_iff.1 hr'
    refine ⟨⟨r', hr', rfl⟩, fun same => apart ?_⟩
    exact sound.requests.eq_of_token (RequestTable.mem_pendingFor.1 hr').1
      (RequestTable.mem_pendingFor.1 pending).1 same
  · rintro ⟨⟨r', hr', rfl⟩, apart⟩
    exact ⟨r', (List.mem_erase_of_ne fun same => apart (congrArg _ same)).2 hr', rfl⟩

/-- However a session receives an answer, the request that it names is then settled, and no other
one. -/
theorem Receipt.open_iff {a : RangeAnswer} {start : Int} {count : Nat} {next : Session}
    {outcome : Except Rejection Applied} {l' : LoadedList} {w' : IndexWindow}
    (receipt : Receipt s listId l w a start count next outcome l' w') (sound : s.core.Sound)
    (token : CorrelationToken) :
    next.Open listId token ↔ s.Open listId token ∧ token ≠ a.token := by
  cases receipt with
  | late why settled entry =>
    have same : next.Open listId token ↔ s.Open listId token := by rw [Open, Open, entry]
    rw [same]
    refine ⟨fun pending => ⟨pending, ?_⟩, And.left⟩
    rintro rfl
    obtain ⟨r, pending, named⟩ := pending
    exact settled r pending named
  | absorbed applied pending named touches absorbed entry =>
    rw [← named]
    exact open_of_erase sound pending (congrArg Entry.requests entry) token
  | detached why pending named touches absorbed entry =>
    rw [← named]
    exact open_of_erase sound pending (congrArg Entry.requests entry) token

/-- A session that takes in something goes on loading, as long as no request is added and the loaded
items only become more. -/
theorem Loads.follow {next : Session} {l' : LoadedList} {w' : IndexWindow}
    (loads : s.Loads listId asked l w) (sound : next.core.Sound)
    (counter : next.requests.counter = s.requests.counter)
    (fewer : ∀ r ∈ (next.entry listId).requests, r ∈ (s.entry listId).requests)
    (found : next.find? listId = some l') (loaded : l'.window = .index w') (fits : Fits l' w')
    (front : w'.start ≤ w.start) (back : w.start + w.count ≤ w'.start + w'.count) :
    next.Loads listId asked l' w' := by
  refine ⟨sound, found, loaded, fits, loads.logged.settle counter fewer, loads.proper, ?_⟩
  intro r pending
  obtain ⟨start, count, touches⟩ := loads.touches r (fewer r pending)
  exact ⟨start, count, touches.grow front back⟩

/-- An answer to a request that was taken leaves the session loading, whatever comes of it. -/
theorem Loads.receive {a : RangeAnswer} {start : Int} {count : Nat}
    (loads : s.Loads a.listId asked l w) (inRange : a.InRange) (version : a.version = none)
    (room : a.start + a.items.length ≤ Index.greatest)
    (taken : FetchRequest.range a.token a.listId start count ∈ asked) :
    ∃ l' w', Receipt s a.listId l w a start count (s.apply Kind.index.name a.toJson).1
        (s.apply Kind.index.name a.toJson).2 l' w'
      ∧ (s.apply Kind.index.name a.toJson).1.Loads a.listId asked l' w' := by
  have sound : (s.apply Kind.index.name a.toJson).1.core.Sound :=
    (effects_step loads.sound (.apply Kind.index.name a.toJson)).sound
  have counter : (s.apply Kind.index.name a.toJson).1.requests.counter = s.requests.counter :=
    (tickets_of_outcome (outcome_apply s ⟨Kind.index.name, a.toJson⟩)).1
  by_cases pending : ∃ r ∈ (s.entry a.listId).requests, r.token = a.token
  · obtain ⟨r, pending, named⟩ := pending
    obtain ⟨start', count', touches⟩ := loads.touches r pending
    -- the request is the one that was taken
    have fetch := loads.logged.toFetch_eq taken pending named
    rw [Request.toFetch, touches.target] at fetch
    obtain ⟨-, -, rfl, rfl⟩ := FetchRequest.range.inj fetch
    have own : r.listId = a.listId := (RequestTable.mem_pendingFor.1 pending).2
    have answered :=
      answered_of_pending loads.sound loads.found loads.loaded inRange version pending named
    obtain ⟨items, w', entry, -, outcome⟩ :=
      settled_of_answered loads.sound answered loads.loaded touches.span? version
    rw [own] at entry
    have found := congrArg Entry.list? entry
    have fewer : ∀ r' ∈ ((s.apply Kind.index.name a.toJson).1.entry a.listId).requests,
        r' ∈ (s.entry a.listId).requests := by
      intro r' hr'
      rw [congrArg Entry.requests entry] at hr'
      exact List.mem_of_mem_erase hr'
    have cleared := loads.fits.withInFlight (w.clear (Target.span start' count')).inFlight l.window
    rcases outcome with
      ⟨p, absorbed, rfl, applied, ok⟩ | ⟨⟨fault, absorbed⟩, rfl, rfl, why, refused⟩
    · have taken := IndexWindow.absorbed_of_absorb (w := w.clear _) loads.fits.start inRange.start
        absorbed
      have grows := IndexWindow.grows_of_absorb (w := w.clear _) loads.placed inRange.start room
        absorbed
      rw [ok]
      exact ⟨_, w', .absorbed applied pending named touches absorbed entry,
        loads.follow sound counter fewer found rfl (cleared.absorbed inRange.start taken _) grows.1
          grows.2⟩
    · rw [refused]
      exact ⟨_, _, .detached why pending named touches absorbed entry,
        loads.follow sound counter fewer found rfl (loads.fits.withInFlight _ _) (Int.le_refl _)
          (Int.le_refl _)⟩
  · have settled : ∀ r ∈ (s.entry a.listId).requests, r.token ≠ a.token :=
      fun r hr named => pending ⟨r, hr, named⟩
    obtain ⟨why, refused, core⟩ := late_of_settled inRange version settled
    have entry : (s.apply Kind.index.name a.toJson).1.entry a.listId = s.entry a.listId :=
      congrArg (·.entry a.listId) core
    have found := (congrArg Entry.list? entry).trans loads.found
    rw [refused]
    exact ⟨l, w, .late why settled entry, loads.follow sound counter (entry ▸ fun r hr => hr) found
      loads.loaded loads.fits (Int.le_refl _) (Int.le_refl _)⟩

end Session

end ListSync
