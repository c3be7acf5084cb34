import ListSync.Proofs.Network
import ListSync.Proofs.Producer.Serving
import ListSync.Proofs.Session.Outbox
import Mathlib.Data.List.Perm.Basic

/-!
# Absolute indices of a client and its service

A `Link` is a service with one of its clients, which has loaded a range of an index list and has
subscribed to the list. Changes of the list, accesses, fetches and arrivals follow each other in any
order. What the service makes for the client arrives in the order in which it was made, but may be
on its way for any number of moves.

Client and service agree when the window of the session is the range that the service tracks, and
each loaded item is the item of the list at its index (`Agrees`). They stay in agreement exactly
when all moves keep the place of the range (`staysInAgreement_iff`). A change moves the start of the
range when it adds or removes items before it, and no client is told so. A fetch extends the range
to what is answered, and a client refuses an answer that does not touch what it has loaded.

What carries the proof is that the messages on their way lead the client, from what it shows now, to
what the service tracks (`Tied`). Each move that keeps the place of the range keeps that.
-/

namespace ListSync

open Producer

/-- A service and one of its clients, and what is on its way between them. -/
structure Link where
  service : Service
  id : ConnectionId
  listId : ListId
  client : Session
  /-- The requests that the client has taken from its session and has not yet sent. -/
  asked : List FetchRequest := []
  /-- The messages for the client that have not yet arrived, in the order in which the producer has
  made them. -/
  transit : List ServerMessage := []

namespace Link

/-- A client with a new session connects, loads a range of a list and subscribes to the list. -/
def join (service : Service) (id : ConnectionId) (client : Session) (listId : ListId) (q : Query) :
    Link where
  service := service.join id listId q
  id
  listId
  client := client.receive (service.joinAnswer id listId q)

/-- What can happen to a link. -/
inductive Move where
  /-- The list is changed. -/
  | change (edits : List (Edit Item)) (inRange : ∀ e ∈ edits, e.InRange)
  /-- The client wants an index. -/
  | access (i : Int)
  /-- The client sends the request at a place among those that it has taken. -/
  | send (place : Nat)
  /-- The message that has been on its way for longest arrives. -/
  | deliver

/-- The link after a move. -/
def step (l : Link) : Move → Link
  | .change edits _ =>
    let changed := l.service.step (.change l.listId edits)
    { l with
      service := changed.step (.drain l.id)
      transit := l.transit ++ (changed.hub.drain l.id).2.getD [] }
  | .access i =>
    let (client, requests) := l.client.access l.listId i
    { l with client, asked := l.asked ++ requests }
  | .send place =>
    match l.asked[place]? with
    | none => l
    | some request =>
      let (service, reply) := l.service.answer l.id (.fetch request none)
      { l with service, asked := l.asked.eraseIdx place, transit := l.transit ++ [reply] }
  | .deliver =>
    match l.transit with
    | [] => l
    | m :: rest => { l with client := l.client.receive m, transit := rest }

/-- What a client sends is a text. Whichever text is read as the fetch, the service processes it. -/
theorem step_send_of_read {l : Link} {place : Nat} {request : FetchRequest} {text : String}
    (asked : l.asked[place]? = some request)
    (read : ClientMessage.read? text = some (.fetch request none)) :
    l.step (.send place) =
      { l with
        service := (l.service.process l.id text).1
        asked := l.asked.eraseIdx place
        transit := l.transit ++ [(l.service.process l.id text).2] } := by
  rw [Service.process_of_read read]
  simp only [step, asked]

/-- The link after some moves. -/
def run (l : Link) (moves : List Move) : Link := moves.foldl step l

/-- The link once all messages on their way have arrived. -/
def settled (l : Link) : Link :=
  { l with client := l.transit.foldl Session.receive l.client, transit := [] }

/-- To let all messages arrive is to deliver them one by one. -/
theorem settled_eq_run (l : Link) :
    l.settled = l.run (List.replicate l.transit.length .deliver) := by
  obtain ⟨service, id, listId, client, asked, transit⟩ := l
  induction transit generalizing client with
  | nil => rfl
  | cons m rest ih => exact ih (client.receive m)

/-! ## Agreement -/

/-- The list and the range of it that the service tracks for the client. -/
def tracked? (l : Link) : Option (FullList × Holding) :=
  l.service.catalog.find l.listId |>.toOption.bind fun list =>
    (l.service.hub.holding? l.id l.listId).map (list, ·)

/-- The window of the session is the range that the service tracks, and every loaded item is the
item of the list at its index. -/
structure Agrees (l : Link) (list : FullList) (range : Holding) (loaded : LoadedList)
    (w : IndexWindow) : Prop where
  tracked : l.tracked? = some (list, range)
  found : l.client.find? l.listId = some loaded
  window : loaded.window = .index w
  start : w.start = range.start
  stop : w.stop = range.stop
  within : 0 ≤ range.start ∧ range.start ≤ range.stop ∧ range.stop ≤ list.items.length
  items : loaded.items = segment list.items range.start.toNat range.stop.toNat
  getIndex : ∀ i, w.contains i →
    ∃ x, loaded.getIndex? i = some x ∧ list.items[i.toNat]? = some x

/-- Client and service agree on what the client has loaded. -/
def InAgreement (l : Link) : Prop := ∃ list range loaded w, l.Agrees list range loaded w

/-- Client and service agree whenever no message is on its way: at the start of a run and after
each of its moves, once the messages on their way have arrived. -/
def StaysInAgreement (l : Link) : List Move → Prop
  | [] => l.settled.InAgreement
  | m :: moves => l.settled.InAgreement ∧ (l.step m).StaysInAgreement moves

/-- A condition holds for every move of a run, in the link in which it happens. -/
def Throughout (C : Link → Move → Prop) (l : Link) : List Move → Prop
  | [] => True
  | m :: moves => C l m ∧ (l.step m).Throughout C moves

instance decThroughout {C : Link → Move → Prop} [∀ l m, Decidable (C l m)] :
    (l : Link) → (moves : List Move) → Decidable (l.Throughout C moves)
  | _, [] => inferInstanceAs (Decidable True)
  | l, m :: moves => @instDecidableAnd _ _ _ (decThroughout (l.step m) moves)

/-- There is a next version of the list, and its items fit into memory all through a batch. -/
def Affordable (l : Link) : Move → Prop
  | .change edits _ => ∀ t ∈ l.tracked?, t.1.version < maxCount ∧ Holding.Roomy t.1.items edits
  | _ => True

instance (l : Link) : (m : Move) → Decidable (Affordable l m)
  | .change edits _ => inferInstanceAs (Decidable (∀ t ∈ l.tracked?,
      t.1.version < maxCount ∧ Holding.Roomy t.1.items edits))
  | .access _ | .send _ | .deliver => inferInstanceAs (Decidable True)

/-- The items that a request is answered with touch a range, or overlap it. -/
def Reaches (list : FullList) (range : Holding) : FetchRequest → Prop
  | .range _ _ start count =>
    ((list.slice start count).1 : Int) ≤ range.stop ∧ range.start ≤ (list.slice start count).2
  | .page .. => True

instance (list : FullList) (range : Holding) : (r : FetchRequest) → Decidable (Reaches list range r)
  | .range .. => inferInstanceAs (Decidable (_ ∧ _))
  | .page .. => inferInstanceAs (Decidable True)

/-- A change of the list spares the range that is tracked for the client and leaves its start where
it is; a request that is sent is answered with items that reach the range. -/
def KeepsPlace (l : Link) : Move → Prop
  | .change edits _ => ∀ t ∈ l.tracked?, t.2.spares t.1.items edits
      ∧ (t.2.rebaseAll (Edit.survivors t.1.items edits)).1.start = t.2.start
  | .send place => ∀ t ∈ l.tracked?, ∀ request ∈ l.asked[place]?, Reaches t.1 t.2 request
  | _ => True

instance (l : Link) : (m : Move) → Decidable (KeepsPlace l m)
  | .change edits _ => inferInstanceAs (Decidable (∀ t ∈ l.tracked?, t.2.spares t.1.items edits
      ∧ (t.2.rebaseAll (Edit.survivors t.1.items edits)).1.start = t.2.start))
  | .send place => inferInstanceAs (Decidable (∀ t ∈ l.tracked?, ∀ request ∈ l.asked[place]?,
      Reaches t.1 t.2 request))
  | .access _ | .deliver => inferInstanceAs (Decidable True)

/-! ## What a client will show -/

variable {l : Link} {list : FullList} {range : Holding} {p : Picture}

/-- A picture shows what the service tracks. -/
structure Mirrors (list : FullList) (range : Holding) (p : Picture) : Prop where
  holds : range.Holds list.items p.items
  start : p.start = range.start
  version : p.version = list.version

/-- What a client pictures ends where the range that the service tracks for it does. -/
theorem Mirrors.stop (mirrors : Mirrors list range p) : p.stop = range.stop := by
  have length := mirrors.holds.length.1
  rw [Picture.stop, mirrors.start]
  omega

/-- Who shows a range can follow a change that spares the range and leaves its start, and shows then
what the range has become. -/
theorem Mirrors.change (mirrors : Mirrors list range p) (listId : ListId) {edits : List (Edit Item)}
    (inRange : ∀ e ∈ edits, e.InRange) (version : list.version < maxCount)
    (roomy : Holding.Roomy list.items edits) (spared : range.spares list.items edits)
    (kept : (range.rebaseAll (Edit.survivors list.items edits)).1.start = range.start) :
    p.Takes listId (.update .index ⟨listId, list.version + 1,
        (range.rebaseAll (Edit.survivors list.items edits)).2⟩)
      ∧ Mirrors (list.edited edits) (range.rebaseAll (Edit.survivors list.items edits)).1
        (p.edited ⟨listId, list.version + 1,
          (range.rebaseAll (Edit.survivors list.items edits)).2⟩) := by
  obtain ⟨mid, holds, follows⟩ := Holding.rebaseAll_holds edits mirrors.holds inRange roomy spared
  rw [← follows.items] at holds
  have moved : Mirrors (list.edited edits) (range.rebaseAll (Edit.survivors list.items edits)).1
      (p.edited ⟨listId, list.version + 1, _⟩) :=
    ⟨holds, mirrors.start.trans kept.symm, rfl⟩
  obtain ⟨-, high, low⟩ := holds.length
  have last : (Edit.spliceAll edits list.items).length < Index.greatest := roomy.last
  have sane : (p.edited ⟨listId, list.version + 1, _⟩).Sane :=
    ⟨moved.start.symm ▸ low, by rw [moved.stop]; omega⟩
  exact ⟨.update rfl (congrArg (· + 1) mirrors.version.symm) ⟨version, follows.inRange⟩
    follows.fits sane, moved⟩

/-- Who shows a range can follow the answer to any fetch. -/
theorem Mirrors.takes_fetch (mirrors : Mirrors list range p)
    (room : (list.items.length : Int) ≤ Index.greatest) (token : CorrelationToken) (start : Int)
    (count : Nat) :
    p.Takes list.id (.fetched (.range (list.rangeAnswer token start count)) none) := by
  have within := list.length_sliceItems start count
  have high := (list.slice_le start count).2
  refine .fetched (a := list.rangeAnswer token start count) rfl rfl rfl rfl (Int.natCast_nonneg _)
    ?_ room ?_ none
  · show ((list.slice start count).1 : Int) + (list.sliceItems (list.slice start count)).length
      ≤ list.items.length
    omega
  · intro _
    rw [mirrors.stop]
    exact mirrors.holds.length.2.1

/-- The answer is taken up exactly when it reaches the range. -/
theorem Mirrors.touches_iff (mirrors : Mirrors list range p) (token : CorrelationToken)
    (listId : ListId) (start : Int) (count : Nat) : p.Touches (list.rangeAnswer token start count)
      ↔ Reaches list range (.range token listId start count) := by
  have within := list.length_sliceItems start count
  have stop := mirrors.stop
  have begins := mirrors.start
  show ((list.slice start count).1 : Int) ≤ p.stop
      ∧ p.start ≤ (list.slice start count).1 + (list.sliceItems (list.slice start count)).length
    ↔ ((list.slice start count).1 : Int) ≤ range.stop ∧ range.start ≤ (list.slice start count).2
  omega

/-- Who takes up the answer shows then what the range is extended to. -/
theorem Mirrors.fetch (mirrors : Mirrors list range p)
    (room : (list.items.length : Int) ≤ Index.greatest) {token : CorrelationToken}
    {listId : ListId} {start : Int} {count : Nat}
    (reaches : Reaches list range (.range token listId start count)) :
    Mirrors list (range.extend (list.slice start count).1
        (list.sliceItems (list.slice start count)).length)
      (p.joined (list.rangeAnswer token start count)) := by
  have ⟨ordered, within⟩ := list.slice_le start count
  have extended := mirrors.holds.extend ordered within room reaches
  refine ⟨?_, ?_, mirrors.version⟩
  · rw [Picture.joined, mirrors.start, mirrors.stop]
    exact extended
  · show min ((list.slice start count).1 : Int) p.start = min range.start (list.slice start count).1
    rw [mirrors.start, Int.min_comm]

/-- The client shows a picture, can follow all messages on their way from it, and waits for the
answers to what it has asked for. -/
structure Led (l : Link) (p : Picture) : Prop where
  sound : l.client.core.Sound
  quiet : l.client.Quiet
  shows : l.client.Shows l.listId p
  awaits : l.client.Awaits l.listId
    (l.transit.flatMap ServerMessage.tokens ++ l.asked.map FetchRequest.token)
  ranges : ∀ r ∈ l.asked, r.listId = l.listId ∧ r.kind = .index
  takes : p.TakesAll l.listId l.transit

/-- The messages on their way lead the client to what the service tracks. -/
structure Tied (l : Link) (list : FullList) (range : Holding) (p : Picture) : Prop
    extends l.Led p where
  serves : l.service.Serves l.listId l.id list range []
  kind : list.kind = .index
  room : (list.items.length : Int) ≤ Index.greatest
  mirrors : Mirrors list range (l.transit.foldl Picture.after p)

/-- What is tracked for a client that is served are the list and the range that is held. -/
theorem tracked_of_serves {waiting : List ServerMessage}
    (serves : l.service.Serves l.listId l.id list range waiting) :
    l.tracked? = some (list, range) := by
  rw [tracked?, serves.backing, serves.tracked]
  rfl

/-- One more message is on its way, which answers nothing. -/
theorem Led.push (led : l.Led p) (service : Service) {m : ServerMessage} (none : m.tokens = [])
    (takes : (l.transit.foldl Picture.after p).Takes l.listId m) :
    Led { l with service, transit := l.transit ++ [m] } p := by
  refine ⟨led.sound, led.quiet, led.shows, ?_, led.ranges, led.takes.concat takes⟩
  rw [List.flatMap_append, List.flatMap_singleton, none, List.append_nil]
  exact led.awaits

/-- Once all messages have arrived, the client shows what they lead to. -/
theorem Led.settled (led : l.Led p) :
    l.settled.client.core.Sound
      ∧ l.settled.client.Shows l.listId (l.transit.foldl Picture.after p)
      ∧ l.settled.client.Awaits l.listId (l.asked.map FetchRequest.token) :=
  led.shows.receiveAll led.sound led.awaits led.takes

/-- A client that shows what the service tracks agrees with it. -/
theorem inAgreement_of_shows (tracked : l.tracked? = some (list, range))
    (shows : l.client.Shows l.listId p) (mirrors : Mirrors list range p) : l.InAgreement := by
  obtain ⟨loaded, w, found, window, items, start, count⟩ := shows.loaded
  obtain ⟨low, ordered, high, cut⟩ := Holding.holds_iff.1 mirrors.holds
  have starts : w.start = range.start := start.trans mirrors.start
  have stops : w.stop = range.stop := (shows.sane.stop_eq start count).trans mirrors.stop
  refine ⟨list, range, loaded, w, tracked, found, window, starts, stops, ⟨low, ordered, high⟩,
    items.trans cut, ?_⟩
  intro i contained
  obtain ⟨front, back⟩ := (w.contains_iff i).1 contained
  have front : w.start ≤ i := front
  have back : i < w.stop := back
  have bound : i.toNat < list.items.length := by omega
  refine ⟨list.items[i.toNat], ?_, List.getElem?_eq_getElem bound⟩
  have position : w.position? i = some (i - w.start).toNat := if_pos contained
  have place : range.start.toNat + (i - w.start).toNat = i.toNat := by omega
  rw [LoadedList.getIndex?, window]
  dsimp only
  rw [position, Option.bind_some, items, cut, List.getElem?_drop, place,
    List.getElem?_take_of_lt (by omega), List.getElem?_eq_getElem bound]

/-- A client that agrees with the service shows a picture of the range that is tracked. -/
theorem ends_of_inAgreement (tracked : l.tracked? = some (list, range))
    (shows : l.client.Shows l.listId p) (agreement : l.InAgreement) :
    p.start = range.start ∧ p.stop = range.stop := by
  obtain ⟨list', range', loaded', w', agrees⟩ := agreement
  obtain ⟨-, rfl⟩ := Prod.mk.inj (Option.some.inj (tracked.symm.trans agrees.tracked))
  obtain ⟨loaded, w, found, window, -, start, count⟩ := shows.loaded
  obtain rfl : loaded = loaded' := Option.some.inj (found.symm.trans agrees.found)
  obtain rfl : w = w' := Window.index.inj (window.symm.trans agrees.window)
  exact ⟨start.symm.trans agrees.start,
    (shows.sane.stop_eq start count).symm.trans agrees.stop⟩

/-- Once all messages have arrived, client and service agree. -/
theorem Tied.inAgreement (tied : l.Tied list range p) : l.settled.InAgreement :=
  inAgreement_of_shows (l := l.settled) (tracked_of_serves tied.serves) tied.settled.2.1
    tied.mirrors

/-! ## Arrivals and accesses -/

/-- What arrives first is the first of what leads to the tracked range. -/
theorem Tied.deliver (tied : l.Tied list range p) :
    ∃ p', (l.step .deliver).Tied list range p' := by
  obtain ⟨service, id, listId, client, asked, transit⟩ := l
  cases transit with
  | nil => exact ⟨p, tied⟩
  | cons m rest =>
    have awaits := tied.awaits
    dsimp only at awaits
    rw [List.flatMap_cons, List.append_assoc] at awaits
    obtain ⟨sound, shows, awaits⟩ := tied.shows.receive tied.sound awaits tied.takes.1
    exact ⟨p.after m, ⟨sound, tied.quiet.receive m, shows, awaits, tied.ranges, tied.takes.2⟩,
      tied.serves, tied.kind, tied.room, tied.mirrors⟩

/-- An access changes nothing but what the client has asked for. -/
theorem Tied.access (tied : l.Tied list range p) (i : Int) :
    (l.step (.access i)).Tied list range p := by
  obtain ⟨rs, requests, ranges, sound, shows, quiet, awaits⟩ :=
    tied.shows.access tied.sound tied.quiet tied.awaits i
  have asked : (l.step (.access i)).asked = l.asked ++ rs.map Request.toFetch :=
    congrArg (l.asked ++ ·) requests
  refine ⟨⟨sound, quiet, shows, ?_, ?_, tied.takes⟩, tied.serves, tied.kind, tied.room,
    tied.mirrors⟩
  · rw [asked, List.map_append, ← List.append_assoc, Request.map_token_toFetch]
    exact awaits
  · rw [asked]
    refine List.forall_mem_append.2 ⟨tied.ranges, ?_⟩
    intro r h
    obtain ⟨r', h', rfl⟩ := List.mem_map.1 h
    exact ⟨r'.listId_toFetch.trans (ranges r' h').1, (ranges r' h').2⟩

/-! ## Fetches -/

/-- What is still to be sent is what was asked for without the request that is sent. -/
theorem perm_tokens_eraseIdx {asked : List FetchRequest} {place : Nat} {request : FetchRequest}
    (here : asked[place]? = some request) :
    (request.token :: (asked.eraseIdx place).map FetchRequest.token).Perm
      (asked.map FetchRequest.token) := by
  obtain ⟨bound, rfl⟩ := List.getElem?_eq_some_iff.1 here
  exact (List.getElem_cons_eraseIdx_perm bound).map FetchRequest.token

/-- All that the client asks for are ranges of its list. -/
theorem Led.range_of_asked (led : l.Led p) {request : FetchRequest} (asked : request ∈ l.asked) :
    ∃ token start count, request = .range token l.listId start count := by
  obtain ⟨own, kind⟩ := led.ranges request asked
  cases request with
  | range token listId start count =>
    cases own
    exact ⟨token, start, count, rfl⟩
  | page token listId wanted => cases kind

/-- The client can follow the answer to a fetch that it sends, and the service extends the tracked
range. -/
theorem Tied.sent (tied : l.Tied list range p) {place : Nat} {token : CorrelationToken}
    {start : Int} {count : Nat}
    (asked : l.asked[place]? = some (.range token l.listId start count)) :
    ∃ l', l.step (.send place) = l' ∧ l'.Led p
      ∧ l'.transit = l.transit ++ [.fetched (.range (list.rangeAnswer token start count)) none]
      ∧ l'.service.Serves l'.listId l'.id list (range.extend (list.slice start count).1
        (list.sliceItems (list.slice start count)).length) [] := by
  obtain ⟨reply, serves⟩ := tied.serves.fetch tied.kind token start count none
  have sent : l.step (.send place) = { l with
      service := (l.service.answer l.id (.fetch (.range token l.listId start count) none)).1
      asked := l.asked.eraseIdx place
      transit := l.transit ++ [.fetched (.range (list.rangeAnswer token start count)) none] } := by
    simp only [step, asked, reply]
  refine ⟨_, sent, ⟨tied.sound, tied.quiet, tied.shows, ?_, ?_, ?_⟩, rfl, serves⟩
  · -- the token of the request becomes that of the answer
    refine tied.awaits.perm (((perm_tokens_eraseIdx asked).symm.append_left _).trans ?_)
    rw [List.flatMap_append, List.append_assoc]
    exact .rfl
  · intro r h
    exact tied.ranges r (List.mem_of_mem_eraseIdx h)
  · exact tied.takes.concat
      (tied.serves.named ▸ tied.mirrors.takes_fetch tied.room token start count)

/-- A fetch that reaches the tracked range is taken up by client and service alike. -/
theorem Tied.send (tied : l.Tied list range p) {place : Nat} {request : FetchRequest}
    (asked : l.asked[place]? = some request) (reaches : Reaches list range request) :
    ∃ range', (l.step (.send place)).Tied list range' p := by
  obtain ⟨token, start, count, rfl⟩ := tied.range_of_asked (List.mem_of_getElem? asked)
  obtain ⟨l', sent, led, transit, serves⟩ := tied.sent asked
  rw [sent]
  refine ⟨_, led, serves, tied.kind, tied.room, ?_⟩
  have touches := (tied.mirrors.touches_iff token l.listId start count).2 reaches
  rw [transit, List.foldl_append, List.foldl_cons, List.foldl_nil, Picture.after, if_pos touches]
  exact tied.mirrors.fetch tied.room reaches

/-- A fetch that does not reach the tracked range is refused by the client and noted by the service.
-/
theorem Tied.reaches_of_send (tied : l.Tied list range p) {place : Nat} {request : FetchRequest}
    (asked : l.asked[place]? = some request)
    (agreement : (l.step (.send place)).settled.InAgreement) : Reaches list range request := by
  obtain ⟨token, start, count, rfl⟩ := tied.range_of_asked (List.mem_of_getElem? asked)
  obtain ⟨l', sent, led, transit, serves⟩ := tied.sent asked
  rw [sent] at agreement
  by_contra apart
  have shows := led.settled.2.1
  rw [transit, List.foldl_append, List.foldl_cons, List.foldl_nil, Picture.after,
    if_neg (mt (tied.mirrors.touches_iff token l.listId start count).1 apart)] at shows
  obtain ⟨starts, stops⟩ :=
    ends_of_inAgreement (l := l'.settled) (tracked_of_serves serves) shows agreement
  have within := list.length_sliceItems start count
  have ⟨ordered, high⟩ := list.slice_le start count
  have room := tied.room
  rw [tied.mirrors.start, Holding.extend_eq range (by omega)] at starts
  rw [tied.mirrors.stop, Holding.extend_eq range (by omega), within] at stops
  apply apart
  show ((list.slice start count).1 : Int) ≤ range.stop ∧ range.start ≤ (list.slice start count).2
  dsimp only at starts stops
  omega

/-! ## Changes of the list -/

/-- What a change leaves in the mailbox is on its way at once. -/
theorem step_change {edits : List (Edit Item)} (inRange : ∀ e ∈ edits, e.InRange)
    {waiting : List ServerMessage}
    (serves : (l.service.step (.change l.listId edits)).Serves l.listId l.id list range waiting) :
    ∃ service, l.step (.change edits inRange) = { l with service, transit := l.transit ++ waiting }
      ∧ service.Serves l.listId l.id list range [] := by
  have mailbox : (l.service.step (.change l.listId edits)).hub.mailboxes.get? l.id = some waiting :=
    serves.mailbox
  refine ⟨_, ?_, serves.drain⟩
  simp only [step, Hub.drain, mailbox, Option.getD_some]

/-- A change without edits changes nothing. -/
theorem Tied.change_nil (tied : l.Tied list range p) (inRange : ∀ e ∈ [], Edit.InRange e) :
    (l.step (.change [] inRange)).Tied list range p := by
  obtain ⟨service, stepped, serves⟩ := step_change inRange tied.serves
  rw [stepped, List.append_nil]
  exact ⟨⟨tied.sound, tied.quiet, tied.shows, tied.awaits, tied.ranges, tied.takes⟩, serves,
    tied.kind, tied.room, tied.mirrors⟩

/-- A change that spares the tracked range and leaves its start is followed by the client. -/
theorem Tied.change (tied : l.Tied list range p) {edits : List (Edit Item)} (given : edits ≠ [])
    (inRange : ∀ e ∈ edits, e.InRange) (version : list.version < maxCount)
    (roomy : Holding.Roomy list.items edits) (spared : range.spares list.items edits)
    (kept : (range.rebaseAll (Edit.survivors list.items edits)).1.start = range.start) :
    ∃ list' range', (l.step (.change edits inRange)).Tied list' range' p := by
  obtain ⟨service, stepped, serves⟩ := step_change inRange (tied.serves.change given)
  obtain ⟨takes, moved⟩ :=
    tied.mirrors.change l.listId inRange version roomy spared kept
  rw [stepped, tied.kind]
  refine ⟨_, _, tied.toLed.push service rfl takes, serves, tied.kind, Int.le_of_lt roomy.last, ?_⟩
  dsimp only
  rw [List.foldl_append]
  exact moved

/-- A change that leaves client and service in agreement spares the tracked range and leaves its
start. -/
theorem Tied.kept_of_change (tied : l.Tied list range p) {edits : List (Edit Item)}
    (given : edits ≠ []) (inRange : ∀ e ∈ edits, e.InRange) (version : list.version < maxCount)
    (roomy : Holding.Roomy list.items edits)
    (agreement : (l.step (.change edits inRange)).settled.InAgreement) :
    range.spares list.items edits
      ∧ (range.rebaseAll (Edit.survivors list.items edits)).1.start = range.start := by
  obtain ⟨service, stepped, serves⟩ := step_change inRange (tied.serves.change given)
  rw [stepped, tied.kind] at agreement
  obtain ⟨list', range', loaded, w, agrees⟩ := agreement
  have tracked := (tracked_of_serves (l := { l with service }) serves).symm.trans agrees.tracked
  obtain ⟨rfl, rfl⟩ := Prod.mk.inj (Option.some.inj tracked)
  have spared : range.spares list.items edits :=
    Holding.spares_of_within edits tied.mirrors.holds inRange roomy agrees.within.2.2
  obtain ⟨mid, holds, follows⟩ :=
    Holding.rebaseAll_holds edits tied.mirrors.holds inRange roomy spared
  -- the client does not move the start of what it shows
  obtain ⟨sound, shows, -⟩ := tied.settled
  obtain ⟨loaded', w', found, window, start⟩ := shows.start_of_update
    (b := ⟨l.listId, list.version + 1, _⟩) sound rfl (congrArg (· + 1) tied.mirrors.version.symm)
    ⟨version, follows.inRange⟩
  have found' := agrees.found
  dsimp only [Link.settled] at found'
  rw [List.foldl_append] at found'
  obtain rfl : loaded' = loaded := Option.some.inj (found.symm.trans found')
  obtain rfl : w' = w := Window.index.inj (window.symm.trans agrees.window)
  exact ⟨spared, agrees.start.symm.trans (start.trans tied.mirrors.start)⟩

/-! ## Runs -/

/-- A move that keeps the place of the tracked range leaves the client on its way to it. -/
theorem Tied.step (tied : l.Tied list range p) {m : Move} (affordable : Affordable l m)
    (keeps : KeepsPlace l m) : ∃ list' range' p', (l.step m).Tied list' range' p' := by
  have tracked := tracked_of_serves tied.serves
  cases m with
  | access i => exact ⟨_, _, _, tied.access i⟩
  | deliver =>
    obtain ⟨p', delivered⟩ := tied.deliver
    exact ⟨_, _, _, delivered⟩
  | send place =>
    rcases asked : l.asked[place]? with _ | request
    · have same : l.step (.send place) = l := by simp only [Link.step, asked]
      exact ⟨_, _, _, same ▸ tied⟩
    · obtain ⟨range', sent⟩ := tied.send asked (keeps _ tracked request asked)
      exact ⟨_, _, _, sent⟩
  | change edits inRange =>
    by_cases given : edits = []
    · subst given
      exact ⟨_, _, _, tied.change_nil inRange⟩
    · obtain ⟨version, roomy⟩ := affordable _ tracked
      obtain ⟨spared, kept⟩ := keeps _ tracked
      obtain ⟨list', range', changed⟩ := tied.change given inRange version roomy spared kept
      exact ⟨_, _, _, changed⟩

/-- A move that leaves client and service in agreement keeps the place of the tracked range. -/
theorem Tied.keepsPlace (tied : l.Tied list range p) {m : Move} (affordable : Affordable l m)
    (agreement : (l.step m).settled.InAgreement) : KeepsPlace l m := by
  have tracked := tracked_of_serves tied.serves
  cases m with
  | access i => trivial
  | deliver => trivial
  | send place =>
    intro t h request asked
    obtain rfl := Option.some.inj (tracked.symm.trans h)
    exact tied.reaches_of_send asked agreement
  | change edits inRange =>
    intro t h
    by_cases given : edits = []
    · subst given
      exact ⟨rfl, rfl⟩
    · obtain rfl := Option.some.inj (tracked.symm.trans h)
      obtain ⟨version, roomy⟩ := affordable _ tracked
      exact tied.kept_of_change given inRange version roomy agreement

/-- Agreement all along a run begins with agreement at its start. -/
theorem StaysInAgreement.here {moves : List Move} (h : l.StaysInAgreement moves) :
    l.settled.InAgreement := by
  cases moves with
  | nil => exact h
  | cons m moves => exact h.1

/-- What holds of one move holds of a run, by induction on its moves. -/
theorem Tied.stays_iff (tied : l.Tied list range p) {moves : List Move}
    (affordable : l.Throughout Affordable moves) :
    l.StaysInAgreement moves ↔ l.Throughout KeepsPlace moves := by
  induction moves generalizing l list range p with
  | nil => exact ⟨fun _ => trivial, fun _ => tied.inAgreement⟩
  | cons m moves ih =>
    constructor
    · rintro ⟨-, rest⟩
      have kept := tied.keepsPlace affordable.1 rest.here
      obtain ⟨_, _, _, next⟩ := tied.step affordable.1 kept
      exact ⟨kept, (ih next affordable.2).1 rest⟩
    · rintro ⟨kept, rest⟩
      obtain ⟨_, _, _, next⟩ := tied.step affordable.1 kept
      exact ⟨tied.inAgreement, (ih next affordable.2).2 rest⟩

/-! ## Joining -/

/-- The items with which a list is loaded are those of the range that the service tracks then. -/
theorem mirrors_rangeListing (room : (list.items.length : Int) ≤ Index.greatest) (q : Query) :
    Mirrors list (.ofCount (list.rangeListing q).start (list.rangeListing q).items.length)
      ⟨(list.rangeListing q).start, (list.rangeListing q).items, list.version⟩ := by
  have within := list.length_sliceItems (q.start.getD 0) (q.count.getD list.pageSize)
  have ⟨ordered, high⟩ := list.slice_le (q.start.getD 0) (q.count.getD list.pageSize)
  refine ⟨?_, rfl, rfl⟩
  show (Holding.ofCount (list.slice _ _).1 (list.sliceItems (list.slice _ _)).length).Holds _ _
  rw [Holding.ofCount_eq (by omega), within, Holding.holds_iff]
  exact ⟨Int.natCast_nonneg _, Int.ofNat_le.2 ordered, Int.ofNat_le.2 high, rfl⟩

/-- A client that has loaded a range of a list and has subscribed shows what the service tracks. -/
theorem tied_join {service : Service} (sound : service.Sound) {policy : Policy} {client : Session}
    (made : Session.create policy = .ok client) {listId : ListId}
    (found : service.catalog.find listId = .ok list) (kind : list.kind = .index)
    (version : list.version ≤ maxCount) (room : (list.items.length : Int) ≤ Index.greatest)
    (id : ConnectionId) (q : Query) :
    (join service id client listId q).Tied list
      (.ofCount (list.rangeListing q).start (list.rangeListing q).items.length)
      ⟨(list.rangeListing q).start, (list.rangeListing q).items, list.version⟩ := by
  obtain ⟨answer, serves⟩ := Service.serves_join sound found kind id q
  obtain rfl := serves.named
  have mirrors := mirrors_rangeListing room q
  have stop := Int.le_trans (Int.le_of_eq mirrors.stop) mirrors.holds.length.2.1
  obtain ⟨sound', shows, awaits, quiet⟩ := Session.shows_of_loaded made rfl version rfl rfl
    (Int.natCast_nonneg _) stop room none
  rw [← answer] at sound' shows awaits quiet
  exact ⟨⟨sound', quiet, shows, awaits, by simp [join], trivial⟩, serves, kind, room, mirrors⟩

/-- A client that has loaded a range of an index list and has subscribed to the list agrees with the
service, at the start of a run and after each of its moves, exactly when every change spares the
range that is tracked for the client and leaves its start where it is, and every fetch is answered
with items that reach the range. -/
theorem staysInAgreement_iff {service : Service} (reachable : service.Reachable) {policy : Policy}
    {client : Session} (made : Session.create policy = .ok client) {listId : ListId}
    (found : service.catalog.find listId = .ok list) (kind : list.kind = .index)
    (version : list.version ≤ maxCount) (room : (list.items.length : Int) ≤ Index.greatest)
    (id : ConnectionId) (q : Query) {moves : List Move}
    (affordable : (join service id client listId q).Throughout Affordable moves) :
    (join service id client listId q).StaysInAgreement moves
      ↔ (join service id client listId q).Throughout KeepsPlace moves :=
  (tied_join reachable.sound made found kind version room id q).stays_iff affordable

open Network

/-- The first item of the list is taken out. -/
def cutFirst : Move :=
  .change [.delete 0] <| by
    intro e h
    rw [List.mem_singleton.1 h]
    exact ⟨by decide, by rintro i n ⟨⟩⟩

/-- A client has loaded two of four letters, from a position on. -/
def twoLetters (start : Int) : Link := join lettersService 0 {} "l" { start, count := some 2 }

/-- A client that has loaded the first two letters fetches the other two, and follows when the first
one is taken out while they are on their way. -/
theorem staysInAgreement_twoLetters :
    (twoLetters 0).StaysInAgreement [.access 2, .send 0, cutFirst, .deliver, .deliver] :=
  (staysInAgreement_iff reachable_lettersService (show Session.create {} = .ok {} from rfl)
    (show lettersService.catalog.find "l" = .ok letters from rfl) rfl (by decide) (by decide)
    0 { start := some 0, count := some 2 } (by decide +kernel)).2 (by decide +kernel)

/-- A client that has loaded the two letters in the middle is not told where they are once the first
letter is taken out, and is given one of them again by a fetch. A client that has loaded the first
two letters and then holds one of them refuses the fetch that it has asked for before, and the
service tracks a letter that it has never sent. -/
theorem astray_twoLetters :
    lettersService.Reachable ∧ Session.create {} = .ok {}
    ∧ ¬(twoLetters 1).StaysInAgreement [cutFirst]
    ∧ (((twoLetters 1).run [cutFirst, .deliver, .access 0, .send 0, .deliver]).client.find? "l").map
        (·.items) = some (["b", "b", "c"].map .str)
    ∧ ¬(twoLetters 0).StaysInAgreement [.access 2, cutFirst, .deliver, .send 0]
    ∧ (((twoLetters 0).run [.access 2, cutFirst, .deliver, .send 0, .deliver]).client.find? "l").map
        (·.items) = some (["b"].map .str)
    ∧ ((twoLetters 0).run [.access 2, cutFirst, .deliver, .send 0, .deliver]).tracked?.map (·.2)
        = some ⟨0, 3⟩ := by
  have tied (start : Int) := tied_join reachable_lettersService.sound
    (show Session.create {} = .ok {} from rfl)
    (show lettersService.catalog.find "l" = .ok letters from rfl) rfl (by decide) (by decide)
    0 { start, count := some 2 }
  refine ⟨reachable_lettersService, rfl, ?_, by decide +kernel, ?_, by decide +kernel,
    by decide +kernel⟩
  · exact mt ((tied 1).stays_iff (by decide +kernel)).1 (by decide +kernel)
  · exact mt ((tied 0).stays_iff (by decide +kernel)).1 (by decide +kernel)

end Link

end ListSync
