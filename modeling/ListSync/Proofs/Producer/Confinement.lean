import ListSync.Proofs.Producer.Service

/-!
# What a client can bring about

What a hub keeps for a connection about a list is the range that the connection holds and whether it
has subscribed: its `Stake` in the list. A message of a client touches no stake but that of its own
connection in the list that it names (`Reply.stake`), no list and no mailbox, and a message that is
answered by an error touches nothing. `process_confined` says so for every text, and
`processAll_leaves` for any number of texts of any connections.
-/

namespace ListSync.Producer

/-- What a hub keeps for a connection about a list. -/
structure Stake where
  range? : Option Holding
  subscribed : Bool
deriving DecidableEq

/-- The list that a text names, if it is a message that names one. -/
def ClientMessage.named? (text : String) : Option ListId := (read? text).bind listId?

namespace Hub

/-- What a hub keeps for a connection about a list. -/
def stake (h : Hub) (id : ConnectionId) (listId : ListId) : Stake :=
  ⟨h.holding? id listId, (h.subscribers listId).contains id⟩

/-! ## What each change of a hub leaves -/

section

variable (h : Hub) {id other : ConnectionId} {listId l : ListId}

/-- A range that one connection holds of a list does not touch any other stake. -/
theorem stake_setHolding (apart : ¬(other = id ∧ l = listId)) (range : Holding) :
    (h.setHolding id listId range).stake other l = h.stake other l := by
  rw [stake, holding?_setHolding, if_neg apart, (h.stays_setHolding ..).subscribers, stake]

/-- A fetch of one connection from a list does not touch any other stake. -/
theorem stake_extend (apart : ¬(other = id ∧ l = listId)) (start : Int) (count : Nat) :
    (h.extend id listId start count).stake other l = h.stake other l := by
  unfold extend
  split <;> exact h.stake_setHolding apart _

/-- Sets of subscribers have no part in the ranges that are held. -/
theorem stake_of_subscribers {next : Hub} (connections : next.connections = h.connections)
    (subscribed : other ∈ next.subscribers l ↔ other ∈ h.subscribers l) :
    next.stake other l = h.stake other l := by
  have held : next.holding? other l = h.holding? other l := by rw [holding?, connections, holding?]
  have same : (next.subscribers l).contains other = (h.subscribers l).contains other := by
    rw [Bool.eq_iff_iff, List.contains_iff_mem, List.contains_iff_mem, subscribed]
  rw [stake, held, same, stake]

/-- A subscription of one connection to a list does not touch any other stake. -/
theorem stake_subscribe (apart : ¬(other = id ∧ l = listId)) :
    (h.subscribe id listId).1.stake other l = h.stake other l := by
  refine h.stake_of_subscribers (by rw [h.subscribe_leaves]) ?_
  rw [mem_subscribe, or_iff_right fun new => apart ⟨new.1, new.2.1⟩]

/-- The end of a subscription does not touch any other stake. -/
theorem stake_unsubscribe (apart : ¬(other = id ∧ l = listId)) :
    (h.unsubscribe id listId).1.stake other l = h.stake other l :=
  h.stake_of_subscribers rfl (mem_unsubscribe.trans (and_iff_left apart))

end

end Hub

namespace Service

/-! ## Messages -/

section

variable {s next : Service} {id other : ConnectionId} {m : ClientMessage} {reply : ServerMessage}

/-- A message touches only the stake of its connection in the list that it names. -/
theorem Reply.stake (h : Reply s id m next reply) {l : ListId}
    (apart : ¬(other = id ∧ m.listId? = some l)) :
    next.hub.stake other l = s.hub.stake other l := by
  have away {listId : ListId} (names : m.listId? = some listId) : ¬(other = id ∧ l = listId) := by
    rintro ⟨own, rfl⟩
    exact apart ⟨own, names⟩
  cases h with
  | loaded payload tracked =>
    rcases tracked with rfl | ⟨start, count, rfl⟩
    · rfl
    · exact s.hub.stake_setHolding (away rfl) _
  | subscribed found => exact s.hub.stake_subscribe (away rfl)
  | unsubscribed => exact s.hub.stake_unsubscribe (away rfl)
  | fetched answer tracked =>
    rcases tracked with rfl | ⟨start, count, rfl⟩
    · rfl
    · exact s.hub.stake_extend (away rfl) ..
  | notLoaded | notFound | notFetched | pong => rfl

/-- A message changes nothing of a service but its hub. -/
theorem Reply.leaves (h : Reply s id m next reply) : next = { s with hub := next.hub } := by
  cases h <;> rfl

/-- A message that is answered by an error has done nothing. -/
theorem Reply.eq_of_error (h : Reply s id m next reply) {message : String}
    {requestId : Option String} (failed : reply = .error message requestId) : next = s := by
  cases h with
  | notLoaded | notFound | notFetched => rfl
  | loaded | subscribed | unsubscribed | fetched | pong => cases failed

/-- A reply carries the client's own name for the message. -/
theorem Reply.requestId_eq (h : Reply s id m next reply) : reply.requestId = m.requestId := by
  cases h <;> rfl

/-- No message begins or ends a connection. -/
theorem contains_answer (s : Service) (id : ConnectionId) (m : ClientMessage)
    (other : ConnectionId) :
    (s.answer id m).1.hub.connections.contains other = s.hub.connections.contains other := by
  obtain ⟨-, -, ⟨stays, -⟩ | ⟨listId, -, -, -, -, same⟩ | ⟨listId, -, -, same⟩⟩ := s.hub_answer id m
  · exact stays.connections other
  · rw [same, Hub.subscribe_leaves]
  · rw [same]
    rfl

end

/-! ## Texts -/

variable (s : Service) (id : ConnectionId)

section

variable (text : String)

/-- A text is a message, or it is answered by an error and nothing happens. -/
theorem process_cases :
    (∃ m, ClientMessage.read? text = some m ∧ s.process id text = s.answer id m)
    ∨ ClientMessage.read? text = none
      ∧ s.process id text = (s, .error "Invalid message format: not a message" none) := by
  unfold process
  cases ClientMessage.read? text with
  | none => exact .inr ⟨rfl, rfl⟩
  | some m => exact .inl ⟨m, rfl, rfl⟩

/-- A text touches no stake but that of its connection in the list that it names. -/
theorem stake_process {other : ConnectionId} {l : ListId}
    (apart : ¬(other = id ∧ ClientMessage.named? text = some l)) :
    (s.process id text).1.hub.stake other l = s.hub.stake other l := by
  rcases s.process_cases id text with ⟨m, read, answered⟩ | ⟨-, unread⟩
  · rw [answered]
    refine (s.reply_answer id m).stake fun own => apart ⟨own.1, ?_⟩
    rw [ClientMessage.named?, read, Option.bind_some, own.2]
  · rw [unread]

/-- A text changes no list, and no message comes to a mailbox. -/
theorem process_leaves : (s.process id text).1 = { s with hub := (s.process id text).1.hub }
    ∧ (s.process id text).1.hub.mailboxes = s.hub.mailboxes := by
  rcases s.process_cases id text with ⟨m, -, answered⟩ | ⟨-, unread⟩
  · rw [answered]
    exact ⟨(s.reply_answer id m).leaves, (s.hub_answer id m).2.1⟩
  · rw [unread]
    exact ⟨rfl, rfl⟩

end

/-- What comes of a text of a connection: what it leaves as it is, and what the answer carries. -/
structure Confined (text : String) (next : Service) (reply : ServerMessage) : Prop where
  /-- No list changes, nor anything else but the hub. -/
  lists : next = { s with hub := next.hub }
  connections : ∀ other, next.hub.connections.contains other = s.hub.connections.contains other
  mailboxes : next.hub.mailboxes = s.hub.mailboxes
  others : ∀ other listId, other ≠ id → next.hub.stake other listId = s.hub.stake other listId
  /-- The connection itself is touched in the one list that it names, if it names any. -/
  own : ∀ listId, ClientMessage.named? text ≠ some listId →
    next.hub.stake id listId = s.hub.stake id listId
  failed : ∀ message requestId, reply = .error message requestId → next = s
  requestId : ∀ m, ClientMessage.read? text = some m → reply.requestId = m.requestId

/-- Whatever text comes from a connection, and whatever the service, it is confined to what the hub
keeps for this connection about the list that the text names. -/
theorem process_confined (text : String) :
    s.Confined id text (s.process id text).1 (s.process id text).2 where
  lists := (s.process_leaves id text).1
  connections other := by
    rcases s.process_cases id text with ⟨m, -, answered⟩ | ⟨-, unread⟩
    · rw [answered]
      exact s.contains_answer id m other
    · rw [unread]
  mailboxes := (s.process_leaves id text).2
  others other listId apart := s.stake_process id text fun own => apart own.1
  own listId apart := s.stake_process id text fun own => apart own.2
  failed message requestId failed := by
    rcases s.process_cases id text with ⟨m, -, answered⟩ | ⟨-, unread⟩
    · rw [answered] at failed ⊢
      exact (s.reply_answer id m).eq_of_error failed
    · rw [unread]
  requestId m read := by
    rcases s.process_cases id text with ⟨m', read', answered⟩ | ⟨unread, -⟩
    · rw [answered, (s.reply_answer id m').requestId_eq, Option.some.inj (read'.symm.trans read)]
    · rw [unread] at read
      cases read

/-! ## Many texts -/

/-- The service after texts of some connections. -/
def processAll (s : Service) (texts : List (ConnectionId × String)) : Service :=
  texts.foldl (fun s (id, text) => (s.process id text).1) s

/-- However many texts come, no list changes and no message comes to a mailbox. What is kept for a
connection about a list changes only if a text of the connection names the list. -/
theorem processAll_leaves {s : Service} (texts : List (ConnectionId × String)) :
    s.processAll texts = { s with hub := (s.processAll texts).hub }
    ∧ (s.processAll texts).hub.mailboxes = s.hub.mailboxes
    ∧ ∀ other listId, (∀ text, (other, text) ∈ texts → ClientMessage.named? text ≠ some listId) →
      (s.processAll texts).hub.stake other listId = s.hub.stake other listId := by
  induction texts generalizing s with
  | nil => exact ⟨rfl, rfl, fun _ _ _ => rfl⟩
  | cons first texts ih =>
    obtain ⟨id, text⟩ := first
    obtain ⟨lists, mailboxes, stakes⟩ := ih (s := (s.process id text).1)
    obtain ⟨lists', mailboxes'⟩ := s.process_leaves id text
    have catalog : (s.process id text).1.catalog = s.catalog := by rw [lists']
    have secret : (s.process id text).1.secret = s.secret := by rw [lists']
    refine ⟨lists.trans ?_, mailboxes.trans mailboxes', ?_⟩
    · rw [catalog, secret]
      rfl
    · intro other listId apart
      refine (stakes other listId fun text later => apart text (List.mem_cons_of_mem _ later)).trans
        (s.stake_process id text ?_)
      rintro ⟨rfl, named⟩
      exact apart text List.mem_cons_self named

end Service

end ListSync.Producer
