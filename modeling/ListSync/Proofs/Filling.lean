import ListSync.Proofs.Network
import ListSync.Proofs.Session.Rendering

/-!
# A client that fills in a list

A `Filling` is a service and a client that loads an index list from it, which nobody changes
meanwhile. The client first loads any range of the list. Then accesses, fetches and arrivals follow
each other in any order: a request may be sent more than once, and an answer may be delivered at any
time and more than once.

What is first loaded is taken in, every request is answered, and an answer is accepted exactly when
it is the first one to its request that is delivered. All along, the loaded items are those of the
list over the window. Whenever all answers have been delivered, the window is the range that the
service tracks for the client (`fills_in`).

Two things carry the proof. Every request lies within the list, as the client knows the bounds, so
that it is answered in full (`FullList.exact_of_within`). And the tracked range reaches as far as
the loaded items and the answered ranges do together (`Hull`). So when none of these is left out any
more, it is the window.
-/

namespace ListSync

open Producer

/-! ## Ranges that grow together -/

/-- A range reaches exactly as far as the loaded items and some answered ranges do together. -/
structure Hull (range : Holding) (w : IndexWindow) (answered : List Span) : Prop where
  loaded : range.start ≤ w.start ∧ w.start + w.count ≤ range.stop
  within : ∀ s ∈ answered, range.start ≤ s.start ∧ s.stop ≤ range.stop
  start : range.start = w.start ∨ ∃ s ∈ answered, s.start = range.start
  stop : range.stop = w.start + w.count ∨ ∃ s ∈ answered, s.stop = range.stop

namespace Hull

variable {range : Holding} {w w' : IndexWindow} {answered : List Span}

/-- One more range is answered. -/
theorem extend (hull : Hull range w answered) (first n : Nat)
    (room : ((first + n : Nat) : Int) ≤ Index.greatest) :
    Hull (range.extend first n) w (answered ++ [⟨first, first + n⟩]) := by
  obtain ⟨loaded, within, start, stop⟩ := hull
  rw [Holding.extend_eq range room]
  refine ⟨?_, ?_, ?_, ?_⟩
  · dsimp only
    omega
  · refine List.forall_mem_append.2 ⟨fun s hs => ?_, List.forall_mem_singleton.2 ?_⟩
    · have := within s hs
      dsimp only
      omega
    · dsimp only
      omega
  -- the range starts where it did, or with the new answer
  · rcases Int.le_total range.start first with before | behind
    · have same : min range.start (first : Int) = range.start := Int.min_eq_left before
      dsimp only
      rw [same]
      exact start.imp_right fun ⟨s, hs, same⟩ => ⟨s, List.mem_append_left _ hs, same⟩
    · exact .inr ⟨_, List.mem_append_right _ (List.mem_singleton_self _),
        (Int.min_eq_right behind).symm⟩
  · rcases Int.le_total (first + n) range.stop with before | behind
    · have same : max range.stop ((first + n : Nat) : Int) = range.stop := by omega
      dsimp only
      rw [same]
      exact stop.imp_right fun ⟨s, hs, same⟩ => ⟨s, List.mem_append_left _ hs, same⟩
    · refine .inr ⟨_, List.mem_append_right _ (List.mem_singleton_self _), ?_⟩
      dsimp only
      omega

/-- An answered range is put to the loaded items. -/
theorem take (hull : Hull range w answered) {s : Span} (hs : s ∈ answered)
    (start : w'.start = min s.start w.start)
    (stop : w'.start + w'.count = max s.stop (w.start + w.count)) : Hull range w' answered := by
  have within := hull.within s hs
  have loaded := hull.loaded
  refine ⟨by omega, hull.within, ?_, ?_⟩
  · rcases hull.start with same | other
    · exact .inl (by omega)
    · exact .inr other
  · rcases hull.stop with same | other
    · exact .inl (by omega)
    · exact .inr other

/-- Once all answered ranges are among the loaded items, the range is theirs. -/
theorem eq_of_within (hull : Hull range w answered)
    (within : ∀ s ∈ answered, w.start ≤ s.start ∧ s.stop ≤ w.start + w.count) :
    range = ⟨w.start, w.start + w.count⟩ := by
  have loaded := hull.loaded
  have start : range.start = w.start := by
    rcases hull.start with same | ⟨s, hs, same⟩
    · exact same
    · have := within s hs
      omega
  have stop : range.stop = w.start + w.count := by
    rcases hull.stop with same | ⟨s, hs, same⟩
    · exact same
    · have := within s hs
      omega
  rw [← stop, ← start]

end Hull

/-- The range of the items that a message gives. -/
def Producer.ServerMessage.span? : ServerMessage → Option Span
  | .fetched (.range a) _ => some ⟨a.start, a.start + a.items.length⟩
  | _ => none

/-! ## Service and client -/

/-- A service, and a client that loads a list from it. -/
structure Filling where
  service : Service
  id : ConnectionId
  listId : ListId
  client : Session
  /-- The requests that the client has made. -/
  asked : List FetchRequest := []
  /-- What the service has sent for the requests that have reached it. -/
  replies : List ServerMessage := []
  /-- The tokens of the answers that have been delivered. -/
  arrived : List CorrelationToken := []

namespace Filling

/-- A client has a connection load some of a list, and registers what comes. -/
def start (service : Service) (id : ConnectionId) (client : Session) (listId : ListId)
    (q : Query) : Filling where
  service := (service.answer id (.load listId q none)).1
  id
  listId
  client := client.receive (service.answer id (.load listId q none)).2

/-- What can happen. -/
inductive Move where
  /-- The client wants an index. -/
  | want (i : Int) (inRange : Index.InRange i)
  /-- The client wants the item at a position among the loaded ones, or behind them. -/
  | wantAt (position : Nat)
  /-- The request at a place among those that were made is sent to the service. -/
  | send (place : Nat)
  /-- The message at a place among those that the service has sent is delivered. -/
  | deliver (place : Nat)

/-- The service and the client after a move. -/
def step (f : Filling) : Move → Filling
  | .want i _ =>
    let (client, requests) := f.client.want f.listId i
    { f with client, asked := f.asked ++ requests }
  | .wantAt position =>
    let (client, requests) := f.client.wantPosition f.listId position
    { f with client, asked := f.asked ++ requests }
  | .send place =>
    match f.asked[place]? with
    | none => f
    | some request =>
      let (service, reply) := f.service.answer f.id (.fetch request none)
      { f with service, replies := f.replies ++ [reply] }
  | .deliver place =>
    match f.replies[place]? with
    | none => f
    | some m => { f with client := f.client.receive m, arrived := f.arrived ++ m.tokens }

/-- What a client sends is a text. Whichever text is read as the fetch, the service processes it. -/
theorem step_send_of_read {f : Filling} {place : Nat} {request : FetchRequest} {text : String}
    (asked : f.asked[place]? = some request)
    (read : ClientMessage.read? text = some (.fetch request none)) :
    f.step (.send place) =
      { f with
        service := (f.service.process f.id text).1
        replies := f.replies ++ [(f.service.process f.id text).2] } := by
  rw [Service.process_of_read read]
  simp only [step, asked]

/-- All answers of the service have been delivered at least once. -/
def AllArrived (f : Filling) : Prop := ∀ m ∈ f.replies, ∀ token ∈ m.tokens, token ∈ f.arrived

/-- The client shows the items of a list over its window, and knows where the list begins and ends.
Once all answers have been delivered, the window is the range that the service tracks. -/
structure Shows (list : FullList) (f : Filling) (l : LoadedList) (w : IndexWindow) : Prop where
  found : f.client.find? f.listId = some l
  window : l.window = .index w
  within : 0 ≤ w.start ∧ w.start ≤ w.stop ∧ w.stop ≤ list.items.length
  items : l.items = segment list.items w.start.toNat w.stop.toNat
  minimum : w.minimum = some 0
  maximum : w.maximum = some (list.items.length : Int)
  tracked : f.AllArrived → f.service.hub.holding? f.id f.listId = some ⟨w.start, w.stop⟩

/-- The client shows some items of a list as it should. -/
def ShowsLaw (list : FullList) (f : Filling) : Prop := ∃ l w, Shows list f l w

/-- A request that is sent is answered. An answer that is delivered is accepted exactly when it is
the first one to its request. -/
def Succeeds (f : Filling) : Move → Prop
  | .want .. | .wantAt _ => True
  | .send place => ∀ request ∈ f.asked[place]?,
    (f.service.answer f.id (.fetch request none)).2.tokens = [request.token]
  | .deliver place => ∀ m ∈ f.replies[place]?,
    f.client.accepts m ↔ ∀ token ∈ m.tokens, token ∉ f.arrived

/-! ## What every move keeps -/

/-- How a client stands that fills in a list, and its service. -/
structure Fills (list : FullList) (f : Filling) (l : LoadedList) (w : IndexWindow) : Prop where
  own : f.listId = list.id
  backing : f.service.catalog.find f.listId = .ok list
  kind : list.kind = .index
  room : (list.items.length : Int) ≤ Index.greatest
  renders : f.client.Renders list f.asked l w
  inside : ∀ r ∈ f.asked, Inside list r
  replies : ∀ m ∈ f.replies, ∃ a, m = .fetched (.range a) none ∧ list.Gives a
    ∧ FetchRequest.range a.token list.id a.start a.items.length ∈ f.asked
  /-- Outstanding are the requests to which no answer has been delivered. -/
  pending : ∀ token, f.client.Open list.id token
    ↔ token ∈ f.asked.map (·.token) ∧ token ∉ f.arrived
  known : ∀ token ∈ f.arrived, token ∈ f.asked.map (·.token)
  arrived : ∀ token start count, FetchRequest.range token list.id start count ∈ f.asked →
    token ∈ f.arrived → w.start ≤ start ∧ start + count ≤ w.start + w.count
  tracked : ∃ range, f.service.hub.holding? f.id f.listId = some range
    ∧ Hull range w (f.replies.filterMap ServerMessage.span?)

variable {f : Filling} {list : FullList} {l : LoadedList} {w : IndexWindow}

/-- A client that wants an item goes on filling in the list. -/
theorem Fills.want (fills : Fills list f l w) {i : Int} (inRange : Index.InRange i) :
    ∃ l' w', Fills list (f.step (.want i inRange)) l' w' := by
  obtain ⟨own, backing, kind, room, renders, inside, replies, pending, known, arrived, range,
    tracked, hull⟩ := fills
  generalize wanted : f.client.want list.id i = result
  obtain ⟨next, new⟩ := result
  obtain ⟨l', w', renders', inside', opened, start, count⟩ := renders.want inRange wanted
  have stepped : f.step (.want i inRange) = { f with client := next, asked := f.asked ++ new } := by
    rw [step, own, wanted]
  -- no answer to a new request can have been delivered
  have fresh : ∀ token ∈ f.arrived, token ∉ new.map (·.token) := fun token delivered =>
    renders'.loads.logged.fresh (known token delivered)
  have asked (token : CorrelationToken) : token ∈ (f.asked ++ new).map (·.token)
      ↔ token ∈ f.asked.map (·.token) ∨ token ∈ new.map (·.token) := by
    rw [List.map_append, List.mem_append]
  rw [stepped]
  refine ⟨l', w', own, backing, kind, room, renders', List.forall_mem_append.2 ⟨inside, inside'⟩,
    ?_, ?_, ?_, ?_, range, tracked, ?_⟩
  · intro m hm
    obtain ⟨a, answer, gives, taken⟩ := replies m hm
    exact ⟨a, answer, gives, List.mem_append_left _ taken⟩
  · intro token
    dsimp only
    rw [opened, pending, asked]
    have := fresh token
    tauto
  · intro token delivered
    exact (asked token).2 (.inl (known token delivered))
  · intro token first n requested delivered
    rw [start, count]
    rcases List.mem_append.1 requested with old | new
    · exact arrived token first n old delivered
    · exact absurd (List.mem_map_of_mem new) (fresh token delivered)
  · exact ⟨by rw [start, count]; exact hull.loaded, hull.within, start ▸ hull.start,
      by rw [start, count]; exact hull.stop⟩

/-- To want an item by its position is to want its index. -/
theorem Fills.wantAt (fills : Fills list f l w) (position : Nat) :
    ∃ l' w', Fills list (f.step (.wantAt position)) l' w' := by
  have index := fills.renders.loads.wantPosition_eq position
  have stepped : f.step (.wantAt position)
      = f.step (.want (Index.add w.start (Index.wrapCount position)) (Index.inRange_add ..)) := by
    rw [step, step, fills.own, index]
  rw [stepped]
  exact fills.want _

/-- A request that is sent is answered in full, and the tracked range is extended to the answer. -/
theorem Fills.answered (fills : Fills list f l w) {request : FetchRequest}
    (made : request ∈ f.asked) :
    ∃ a, (f.service.answer f.id (.fetch request none)).2 = .fetched (.range a) none
      ∧ list.Gives a ∧ request = .range a.token list.id a.start a.items.length
      ∧ (f.service.answer f.id (.fetch request none)).1.catalog.find f.listId = .ok list
      ∧ ∃ range, (f.service.answer f.id (.fetch request none)).1.hub.holding? f.id f.listId
          = some range
        ∧ Hull range w (f.replies.filterMap ServerMessage.span?
          ++ [⟨a.start, a.start + a.items.length⟩]) := by
  obtain ⟨start, count, asks, low, within⟩ := fills.inside request made
  generalize request.token = token at asks
  subst asks
  obtain ⟨range, tracked, hull⟩ := fills.tracked
  have gives := list.gives_rangeAnswer token start count
  -- what was asked for lies in the list, so the answer is exactly that
  obtain ⟨first, length⟩ := FullList.exact_of_within (l := list) token low within
  have backing : f.service.catalog.find list.id = .ok list := fills.own ▸ fills.backing
  have answer := Service.answer_fetch backing fills.kind f.id token start count none
  rw [answer]
  refine ⟨list.rangeAnswer token start count, rfl, gives, ?_, fills.backing, ?_⟩
  · rw [first, length]
    rfl
  · refine ⟨_, ?_, hull.extend (list.slice start count).1 _ ?_⟩
    · rw [fills.own] at tracked ⊢
      exact Hub.holding?_extend tracked _ _
    · rw [Int.natCast_add]
      exact Int.le_trans gives.last fills.room

/-- A request that is sent leaves a client that fills in the list. -/
theorem Fills.send (fills : Fills list f l w) (place : Nat) :
    ∃ l' w', Fills list (f.step (.send place)) l' w' := by
  cases chosen : f.asked[place]? with
  | none =>
    rw [step, chosen]
    exact ⟨l, w, fills⟩
  | some request =>
    have made : request ∈ f.asked := List.mem_of_getElem? chosen
    obtain ⟨a, answer, gives, asks, backing, range, tracked, hull⟩ := fills.answered made
    have stepped : f.step (.send place) = { f with
        service := (f.service.answer f.id (.fetch request none)).1
        replies := f.replies ++ [.fetched (.range a) none] } := by
      rw [step, chosen, ← answer]
    rw [stepped]
    refine ⟨l, w, fills.own, backing, fills.kind, fills.room, fills.renders, fills.inside, ?_,
      fills.pending, fills.known, fills.arrived, range, tracked, ?_⟩
    · refine List.forall_mem_append.2 ⟨fills.replies, List.forall_mem_singleton.2 ?_⟩
      exact ⟨a, rfl, gives, asks ▸ made⟩
    · rw [List.filterMap_append]
      exact hull

/-- An answer is accepted exactly when it is the first one to its request that is delivered. Then
the loaded items reach as far as they and the answered ones did together. -/
theorem Fills.received (fills : Fills list f l w) {a : RangeAnswer} (gives : list.Gives a)
    (taken : FetchRequest.range a.token list.id a.start a.items.length ∈ f.asked) :
    ∃ l' w', (f.client.receive (.fetched (.range a) none)).Renders list f.asked l' w'
      ∧ (f.client.accepts (.fetched (.range a) none) ↔ a.token ∉ f.arrived)
      ∧ (∀ token, (f.client.receive (.fetched (.range a) none)).Open list.id token
        ↔ token ∈ f.asked.map (·.token) ∧ token ∉ f.arrived ++ [a.token])
      ∧ w'.start = min a.start w.start
      ∧ w'.start + w'.count = max (a.start + a.items.length) (w.start + w.count) := by
  obtain ⟨l', w', renders, accepted, opened, late, first⟩ :=
    fills.renders.receive fills.room gives (gives.listId.symm ▸ taken)
  have asked : a.token ∈ f.asked.map (·.token) := List.mem_map_of_mem taken
  have pending : f.client.Open list.id a.token ↔ a.token ∉ f.arrived := by
    rw [fills.pending]
    exact and_iff_right asked
  refine ⟨l', w', renders, accepted.trans pending, ?_, ?_⟩
  · intro token
    rw [opened, fills.pending, List.mem_append, List.mem_singleton, not_or, and_assoc]
  · by_cases delivered : a.token ∈ f.arrived
    · have within := fills.arrived _ _ _ taken delivered
      rw [late (mt pending.1 (not_not.2 delivered))]
      omega
    · exact first (pending.2 delivered)

/-- An answer that is delivered leaves a client that fills in the list. -/
theorem Fills.deliver (fills : Fills list f l w) (place : Nat) :
    ∃ l' w', Fills list (f.step (.deliver place)) l' w' := by
  cases chosen : f.replies[place]? with
  | none =>
    rw [step, chosen]
    exact ⟨l, w, fills⟩
  | some m =>
    have sent : m ∈ f.replies := List.mem_of_getElem? chosen
    obtain ⟨a, rfl, gives, taken⟩ := fills.replies m sent
    obtain ⟨l', w', renders, -, pending, start, stop⟩ := fills.received gives taken
    obtain ⟨range, tracked, hull⟩ := fills.tracked
    have stepped : f.step (.deliver place) = { f with
        client := f.client.receive (.fetched (.range a) none)
        arrived := f.arrived ++ [a.token] } := by
      rw [step, chosen]
      rfl
    rw [stepped]
    refine ⟨l', w', fills.own, fills.backing, fills.kind, fills.room, renders, fills.inside,
      fills.replies, pending, ?_, ?_, range, tracked, ?_⟩
    · exact List.forall_mem_append.2
        ⟨fills.known, List.forall_mem_singleton.2 (List.mem_map_of_mem taken)⟩
    · intro token first n requested delivered
      rcases List.mem_append.1 delivered with old | new
      · have within := fills.arrived token first n requested old
        omega
      · -- only one request has this token
        obtain rfl := List.mem_singleton.1 new
        have distinct := fills.renders.loads.logged.distinct
        have same := List.inj_on_of_nodup_map distinct requested taken rfl
        obtain ⟨-, -, rfl, rfl⟩ := FetchRequest.range.inj same
        omega
    · exact hull.take (List.mem_filterMap.2 ⟨_, sent, rfl⟩) start stop

/-- A client goes on filling in the list after every move. -/
theorem Fills.step (fills : Fills list f l w) (m : Move) :
    ∃ l' w', Fills list (f.step m) l' w' := by
  cases m with
  | want i inRange => exact fills.want inRange
  | wantAt position => exact fills.wantAt position
  | send place => exact fills.send place
  | deliver place => exact fills.deliver place

/-! ## What follows -/

/-- While a client fills in a list, requests are answered and first answers accepted. -/
theorem Fills.succeeds (fills : Fills list f l w) (m : Move) : Succeeds f m := by
  cases m with
  | want i inRange => trivial
  | wantAt position => trivial
  | send place =>
    intro request chosen
    obtain ⟨a, answer, -, asks, -⟩ := fills.answered (List.mem_of_getElem? chosen)
    rw [answer, asks]
    rfl
  | deliver place =>
    intro m chosen
    obtain ⟨a, rfl, gives, taken⟩ := fills.replies m (List.mem_of_getElem? chosen)
    obtain ⟨-, -, -, accepted, -⟩ := fills.received gives taken
    rw [accepted]
    exact (List.forall_mem_singleton (p := (· ∉ f.arrived))).symm

/-- A client that fills in a list shows items of it, within its bounds. -/
theorem Fills.shows (fills : Fills list f l w) : Shows list f l w := by
  have renders := fills.renders
  have stop := renders.loads.stop
  refine ⟨fills.own ▸ renders.loads.found, renders.loads.loaded, ⟨renders.low, ?_, ?_⟩, ?_,
    renders.minimum, renders.maximum, ?_⟩
  · omega
  · rw [stop]
    exact renders.last
  · rw [renders.excerpt.items, list.between_source, stop]
  · intro all
    obtain ⟨range, tracked, hull⟩ := fills.tracked
    have same : range = ⟨w.start, w.start + w.count⟩ := by
      refine hull.eq_of_within fun s hs => ?_
      obtain ⟨m, sent, span⟩ := List.mem_filterMap.1 hs
      obtain ⟨a, rfl, -, taken⟩ := fills.replies m sent
      obtain rfl := Option.some.inj span
      exact fills.arrived _ _ _ taken (all _ sent a.token (List.mem_singleton_self _))
    rw [tracked, same, stop]

/-- A client that has registered what it has loaded has asked for nothing yet. -/
theorem fills_start {service : Service} (reachable : service.Reachable) {id : ConnectionId}
    (connected : service.hub.connections.contains id) {client : Session}
    (reachable' : client.Reachable) (unfinished : client.finished = false)
    {listId : ListId} (found : service.catalog.find listId = .ok list) (kind : list.kind = .index)
    (version : list.version ≤ maxCount) (room : (list.items.length : Int) ≤ Index.greatest)
    (q : Query) :
    client.accepts (service.answer id (.load listId q none)).2
      ∧ Fills list (start service id client listId q) (list.rangeListing q).list
        (list.rangeListing q).window := by
  have answer := Service.answer_load found kind id q none
  obtain ⟨accepted, renders⟩ :=
    Session.renders_loaded reachable'.sound unfinished version room q
  have own : listId = list.id :=
    (reachable.sound.named listId list (Catalog.find_eq_ok_iff.1 found)).symm
  rw [start, answer]
  refine ⟨accepted, own, found, kind, room, renders, by simp, by simp, ?_, by simp, by simp, ?_⟩
  -- nothing was asked for yet, so no token is open
  · refine fun token => iff_of_false ?_ (by simp)
    rintro ⟨r, pending, -⟩
    exact absurd (renders.loads.logged.pending r pending) List.not_mem_nil
  · have last : (list.rangeListing q).start + (list.rangeListing q).items.length
        ≤ list.items.length := renders.last
    have tracked : Holding.ofCount (list.rangeListing q).start (list.rangeListing q).items.length
        = ⟨(list.rangeListing q).start, _⟩ := Holding.ofCount_eq (Int.le_trans last room)
    refine ⟨_, Hub.holding?_track connected _ _, ?_⟩
    rw [tracked]
    exact ⟨⟨Int.le_refl _, Int.le_refl _⟩, by simp, .inl rfl, .inl rfl⟩

/-- A client loads any range of an index list that nobody changes, and registers it. What it loads
is accepted. However accesses, fetches and arrivals then follow each other, every request is
answered, and the first answer to each request is accepted, and no later one. The loaded items are
those of the list over the window, and whenever all answers have been delivered, the window is the
range that the service tracks. -/
theorem fills_in {service : Service} (reachable : service.Reachable) {id : ConnectionId}
    (connected : service.hub.connections.contains id) {client : Session}
    (reachable' : client.Reachable) (unfinished : client.finished = false)
    {listId : ListId} (found : service.catalog.find listId = .ok list) (kind : list.kind = .index)
    (version : list.version ≤ maxCount) (room : (list.items.length : Int) ≤ Index.greatest)
    (q : Query) (moves : List Move) :
    client.accepts (service.answer id (.load listId q none)).2
      ∧ Trace.Throughout step Succeeds (start service id client listId q) moves
      ∧ Trace.Always step (ShowsLaw list) (start service id client listId q) moves := by
  obtain ⟨accepted, fills⟩ := fills_start reachable connected reachable' unfinished found kind
    version room q
  have keeps (f : Filling) (m : Move) (known : ∃ l w, Fills list f l w) :
      ∃ l w, Fills list (f.step m) l w := by
    obtain ⟨l, w, fills⟩ := known
    exact fills.step m
  refine ⟨accepted, Trace.throughout_of_invariant ?_ keeps ⟨_, _, fills⟩ moves,
    Trace.always_of_invariant ?_ keeps ⟨_, _, fills⟩ moves⟩
  · rintro f m ⟨l, w, fills⟩
    exact fills.succeeds m
  · rintro f ⟨l, w, fills⟩
    exact ⟨l, w, fills.shows⟩

open Network

/-- A client that has loaded the second of four letters wants the third and the first one. The
second request is sent first, and the other one twice. The answers come one after the other, and
the first of them once more at the end. -/
def aroundSecond : List Move :=
  [.want 2 (by decide), .wantAt 2, .want 0 (by decide), .send 1, .send 0, .send 0, .deliver 1,
    .deliver 0, .deliver 2, .deliver 0]

/-- In this way the client comes to hold all four letters, and the service tracks as many. -/
theorem fills_in_aroundSecond :
    let service := lettersService.step (.connect 0)
    let q : Query := { start := some 1, count := some 1 }
    let f := start service 0 {} "l" q
    ({} : Session).accepts (service.answer 0 (.load "l" q none)).2
    ∧ Trace.Throughout step Succeeds f aroundSecond
    ∧ Trace.Always step (ShowsLaw letters) f aroundSecond
    ∧ ((aroundSecond.foldl step f).client.find? "l").map (·.items) = some letters.items
    ∧ (aroundSecond.foldl step f).service.hub.holding? 0 "l" = some ⟨0, 4⟩ := by
  have connected : (lettersService.step (.connect 0)).hub.connections.contains 0 := by decide
  obtain ⟨accepted, succeeds, shows⟩ := fills_in (reachable_lettersService.step (.connect 0))
    connected Session.reachable_default rfl
    (show lettersService.catalog.find "l" = .ok letters from rfl) rfl (by decide) (by decide)
    { start := some 1, count := some 1 } aroundSecond
  exact ⟨accepted, succeeds, shows, by decide +kernel, by decide +kernel⟩

end Filling

end ListSync
