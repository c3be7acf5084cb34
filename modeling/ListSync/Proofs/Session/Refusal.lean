import ListSync.Proofs.Session.Effect

/-!
# What is refused changes nothing

A payload that is refused leaves lists, versions, changes and requests as they are, and there is one
report of it, or none if it is dropped in silence. The only rejections that touch more are those of
an answer whose range or page does not fit: its request is settled, and what the request waited for
is no longer in flight (`refused_changes_nothing`).
-/

namespace ListSync

/-- Something that is being fetched for a list. -/
inductive Flight where
  | range (span : Span)
  | page (token : String)
deriving DecidableEq

/-- What is being fetched for a list with a window. -/
def Window.flights : Window → List Flight
  | index w => w.inFlight.map .range
  | token w => w.inFlight.map .page

/-- What a request waits for. -/
def Request.flight (r : Request) : Flight :=
  match r.target with
  | .range start count => .range ⟨start, Index.add start (Index.wrapCount count)⟩
  | .page wanted _ => .page wanted

theorem Request.flight_of_span? {r : Request} {span : Span} (h : r.span? = some span) :
    r.flight = .range span := by
  unfold span? at h
  unfold flight
  cases ht : r.target with
  | range start count => simpa only [ht, Flight.range.injEq, Option.some.injEq] using h
  | page wanted d => simp [ht] at h

/-- To clear a range takes that range out of flight, and nothing else. -/
theorem IndexWindow.flights_clear (w : IndexWindow) (span : Span) :
    (Window.index (w.clear span)).flights = (Window.index w).flights.filter (· ≠ .range span) := by
  simp only [Window.flights, clear, List.filter_map]
  refine congrArg (List.map Flight.range) (List.filter_congr ?_)
  intro other _
  simp

/-- To clear a page takes that page out of flight, and nothing else. -/
theorem TokenWindow.flights_clear (w : TokenWindow) (page : String) :
    (Window.token (w.clear page)).flights = (Window.token w).flights.filter (· ≠ .page page) := by
  simp only [Window.flights, clear, List.filter_map]
  refine congrArg (List.map Flight.page) (List.filter_congr ?_)
  intro other _
  simp

/-- A list apart from what is being fetched for it. -/
def LoadedList.still (l : LoadedList) : LoadedList := { l with window := l.window.clearAll }

/-- The report on a payload that is refused, if there is one. -/
def Rejection.report? (why : Rejection) (payload : Json) : Option Report :=
  why.reason?.map fun reason =>
    { reason
      listId := (Session.identify payload).1
      version := (Session.identify payload).2
      message := why.message }

namespace Session

/-- A refused payload is reported, and nothing else happens. -/
theorem reject_eq (s : Session) (payload : Json) (why : Rejection) :
    s.reject payload why = { s with reports := s.reports ++ (why.report? payload).toList } := by
  unfold reject Rejection.report?
  cases why.reason? with
  | none => simp
  | some reason => rfl

/-- Of all requests just one is settled, the one a payload names, and what it waited for is no
longer in flight. -/
structure SettlesNamed (s : Session) (payload : Json) (next : Session) (r : Request) : Prop where
  pending : r ∈ s.requests.pending
  named : payload.member? "correlationToken" = some (.str r.token)
  requests : next.requests = { s.requests with pending := s.requests.pending.erase r }
  flights : ∃ l l', s.find? r.listId = some l ∧ next.find? r.listId = some l'
    ∧ l'.window.flights = l.window.flights.filter (· ≠ r.flight)
  others : ∀ listId, listId ≠ r.listId → next.find? listId = s.find? listId

/-- A payload is refused without a trace but its report, and for an inconsistent answer the end of
its request. -/
structure Refused (s : Session) (payload : Json) (why : Rejection) (next : Session) : Prop where
  rest : next = { s with
    lists := next.lists, requests := next.requests, reports := next.reports }
  handles : ∀ listId, next.lists.handle? listId = s.lists.handle? listId
  lists : ∀ listId, (next.find? listId).map (·.still) = (s.find? listId).map (·.still)
  requests : ¬why.Inconsistent → next.lists = s.lists ∧ next.requests = s.requests
  settled : why.Inconsistent → ∃ r, SettlesNamed s payload next r
  reports : next.reports = s.reports ++ (why.report? payload).toList

variable {s : Session}

/-- A rejection without an inconsistency leaves all but the reports. -/
theorem refused_of_plain {payload : Json} {why : Rejection} (plain : ¬why.Inconsistent) :
    Refused s payload why (s.reject payload why) := by
  rw [reject_eq]
  exact ⟨rfl, fun _ => rfl, fun _ => rfl, fun _ => ⟨rfl, rfl⟩, fun h => absurd h plain, rfl⟩

/-- An inconsistent answer settles its request and its mark, and nothing else. -/
theorem refused_of_settleKeeping (sound : s.core.Sound) {u : QueuedUpdate} {answer : Update}
    {l : LoadedList} {r : Request} {why : Rejection} {window : Window}
    (answered : Answered s u answer l r) (inconsistent : why.Inconsistent)
    (still : window.clearAll = l.window.clearAll)
    (flights : window.flights = l.window.flights.filter (· ≠ r.flight)) :
    Refused s u.payload why ((s.settleKeeping r window).reject u.payload why) := by
  have lists (listId : ListId) : (s.settleKeeping r window).find? listId = _ :=
    sound.lists.find?_modify r.listId listId fun l => { l with window }
  -- the window of the list is the only thing that is put in place
  have own : (s.settleKeeping r window).find? r.listId = some { l with window } := by
    rw [lists, if_pos rfl, show s.core.lists.find? r.listId = some l from answered.found]
    rfl
  have others (listId : ListId) (apart : listId ≠ r.listId) :
      (s.settleKeeping r window).find? listId = s.find? listId := by
    rw [lists, if_neg apart]
    rfl
  have table : s.requests.Sound := sound.requests
  have requests : s.requests.settle r.token
      = { s.requests with pending := s.requests.pending.erase r } := by
    rw [← table.pending_settle answered.pending]
    rfl
  rw [reject_eq]
  refine ⟨rfl, ?_, ?_, ?_, ?_, rfl⟩
  · intro listId
    exact s.lists.handle?_modify ..
  · intro listId
    by_cases h : listId = r.listId
    · subst h
      show ((s.settleKeeping r window).find? r.listId).map _ = _
      rw [own, answered.found]
      simp only [Option.map_some, LoadedList.still, still]
    · show ((s.settleKeeping r window).find? listId).map _ = _
      rw [others listId h]
  · intro plain
    exact absurd inconsistent plain
  · intro _
    exact ⟨r, answered.pending, answered.readFrom.token_eq _ answered.token, requests,
      ⟨l, _, answered.found, own, flights⟩, others⟩

/-- A refused update leaves lists, versions, changes and requests as they are, apart from the
request of an inconsistent answer; a refused registration leaves everything. Either is reported at
most once. -/
theorem refused_changes_nothing (reachable : Reachable s) (kindName : String) (payload : Json) :
    (∀ why, (s.apply kindName payload).2 = .error why →
      Refused s payload why (s.apply kindName payload).1)
    ∧ ∀ why, (s.register kindName payload).2 = .error why →
      (s.register kindName payload).1
        = { s with reports := s.reports ++ (why.report? payload).toList } := by
  have sound := reachable.sound
  constructor
  · intro why h
    have outcome := outcome_apply s ⟨kindName, payload⟩
    generalize s.apply kindName payload = result at h outcome
    obtain ⟨next, answer⟩ := result
    dsimp only at h outcome ⊢
    subst h
    -- the two outcomes that settle a request are those of an inconsistent answer
    cases outcome with
    | refused _ plain _ => exact refused_of_plain plain
    | detached answered loaded range absorbed =>
      refine refused_of_settleKeeping sound answered trivial ?_ ?_
      · rw [loaded]
        rfl
      · rw [loaded, Request.flight_of_span? range]
        exact IndexWindow.flights_clear ..
    | mispaged answered loaded page other =>
      refine refused_of_settleKeeping sound answered trivial ?_ ?_
      · rw [loaded]
        rfl
      · rw [loaded, Request.flight, page]
        exact TokenWindow.flights_clear ..
  · intro why h
    have outcome := registration_register s kindName payload
    generalize s.register kindName payload = result at h outcome
    obtain ⟨next, answer⟩ := result
    dsimp only at h outcome ⊢
    subst h
    cases outcome with
    | refused _ => exact reject_eq ..

/-- A list with two items of which the next ten are being fetched. -/
def fetchingTen : Session :=
  ({} : Session).run [.register "dynamicIndexList" (.obj [("listId", .str "l"),
      ("startIndex", Json.ofInt 0), ("items", .arr [.str "a", .str "b"])]),
    .ensureIndex "l" 5 (by decide)]

/-- An answer with an item far from those that are loaded. -/
def farAnswer : Json :=
  .obj [("listId", .str "l"), ("correlationToken", .str "101"), ("startIndex", Json.ofInt 20),
    ("items", .arr [.str "x"])]

/-- An answer that does not fit settles its request and leaves the two items as they are. -/
theorem refused_far_answer :
    Reachable fetchingTen
    ∧ (fetchingTen.apply "dynamicIndexList" farAnswer).1.requests.pending = []
    ∧ Refused fetchingTen farAnswer
      (.inconsistentRange "l" (RangeFault.detached ⟨20, 21⟩ ⟨0, 2⟩).message)
      (fetchingTen.apply "dynamicIndexList" farAnswer).1 :=
  ⟨reachable_default.run _, by decide,
    (refused_changes_nothing (reachable_default.run _) "dynamicIndexList" farAnswer).1 _
      (by decide)⟩

end Session

end ListSync
