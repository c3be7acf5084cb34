import ListSync.Producer.Holding
import ListSync.Producer.Message
import ListSync.Table

/-!
# Connections and subscriptions

The hub knows who is connected, who has subscribed to which list, and which range of each list a
connection holds. A message that is sent to a connection waits in its mailbox until the client takes
it. The mailbox is the client's end: it outlives the registration, and when it is closed nothing can
be sent any more.
-/

namespace ListSync.Producer

/-- Names a connection. Names are only ever compared. -/
abbrev ConnectionId := Nat

/-- A registered connection: the range of each list that it holds. -/
structure Connection where
  holdings : Table ListId Holding := {}

/-- The connections of a producer. -/
structure Hub where
  connections : Table ConnectionId Connection := {}
  /-- The connections that have subscribed to each list, as sets. A list that nobody has subscribed
  to has none. -/
  audiences : Table ListId (List ConnectionId) := {}
  /-- The messages that wait at each open end. -/
  mailboxes : Table ConnectionId (List ServerMessage) := {}
  /-- The names that connections have had. They are only looked at to find another one (`next`). -/
  used : List ConnectionId := []

namespace Hub

instance : Inhabited Hub := ⟨{}⟩

/-! ## Connections -/

/-- Register a connection under a name, with an open mailbox. -/
def registerAs (h : Hub) (id : ConnectionId) : Hub :=
  { h with
    connections := h.connections.insert id {}
    mailboxes := h.mailboxes.insert id []
    used := id :: h.used }

/-- A name for the next connection: the number of those before it. -/
def next (h : Hub) : ConnectionId := h.used.length

/-- Register a new connection under the next name. -/
def register (h : Hub) : Hub × ConnectionId := (h.registerAs h.next, h.next)

/-- All of some connections but one, if that leaves any. -/
def without (id : ConnectionId) (ids : List ConnectionId) : Option (List ConnectionId) :=
  let rest := ids.filter (· ≠ id)
  if rest.isEmpty then none else some rest

/-- Remove a connection and its subscriptions. What waits in its mailbox stays there. -/
def unregister (h : Hub) (id : ConnectionId) : Hub :=
  if h.connections.contains id then
    { h with
      connections := h.connections.erase id
      audiences := h.audiences.filterMap (without id) }
  else h

/-- The number of registered connections. -/
def size (h : Hub) : Nat := h.connections.size

/-! ## Mailboxes -/

/-- Put a message into a mailbox, and say whether that is open. -/
def post (h : Hub) (id : ConnectionId) (m : ServerMessage) : Hub × Bool :=
  if h.mailboxes.contains id then
    ({ h with mailboxes := h.mailboxes.modify id (· ++ [m]) }, true)
  else (h, false)

/-- Send a message to a registered connection, and say whether that is possible. -/
def send (h : Hub) (id : ConnectionId) (m : ServerMessage) : Hub × Bool :=
  if h.connections.contains id then h.post id m else (h, false)

/-- Take the messages of a mailbox, if it is open. -/
def drain (h : Hub) (id : ConnectionId) : Hub × Option (List ServerMessage) :=
  ({ h with mailboxes := h.mailboxes.modify id fun _ => [] }, h.mailboxes.get? id)

/-- Close a mailbox, and say whether it was open. -/
def close (h : Hub) (id : ConnectionId) : Hub × Bool :=
  ({ h with mailboxes := h.mailboxes.erase id }, h.mailboxes.contains id)

/-! ## Subscriptions -/

/-- The connections that have subscribed to a list. -/
def subscribers (h : Hub) (listId : ListId) : List ConnectionId :=
  (h.audiences.get? listId).getD []

/-- Who has subscribed to what. -/
def subscriptions (h : Hub) : List (ListId × ConnectionId) :=
  h.audiences.entries.flatMap fun e => e.2.map (e.1, ·)

/-- Subscribe a connection to a list, and say whether the connection is registered. -/
def subscribe (h : Hub) (id : ConnectionId) (listId : ListId) : Hub × Bool :=
  if h.connections.contains id then
    ({ h with audiences := h.audiences.insert listId ((h.subscribers listId).insert id) }, true)
  else (h, false)

/-- End a subscription, and say whether there was one. -/
def unsubscribe (h : Hub) (id : ConnectionId) (listId : ListId) : Hub × Bool :=
  ({ h with audiences := h.audiences.adjust listId (without id) },
    (h.subscribers listId).contains id)

/-! ## What connections hold -/

/-- The range of a list that a connection holds. -/
def holding? (h : Hub) (id : ConnectionId) (listId : ListId) : Option Holding :=
  (h.connections.get? id).bind (·.holdings.get? listId)

/-- Set the range of a list that a connection holds. -/
def setHolding (h : Hub) (id : ConnectionId) (listId : ListId) (range : Holding) : Hub :=
  { h with connections := h.connections.modify id fun c =>
      { c with holdings := c.holdings.insert listId range } }

/-- Note the range that a connection has loaded, in place of any earlier one. -/
def track (h : Hub) (id : ConnectionId) (listId : ListId) (start : Int) (count : Nat) : Hub :=
  h.setHolding id listId (.ofCount start count)

/-- Note a range that a connection has fetched. -/
def extend (h : Hub) (id : ConnectionId) (listId : ListId) (start : Int) (count : Nat) : Hub :=
  match h.holding? id listId with
  | some range => h.setHolding id listId (range.extend start count)
  | none => h.track id listId start count

/-! ## Batches -/

/-- Push a batch to one connection, and say whether it could be sent. A connection that holds a
range of the list gets the edits rebased for it, another one gets them as they are. -/
def push (h : Hub) (kind : Kind) (batch : Batch) (skipped : List Nat) (id : ConnectionId) :
    Hub × Bool :=
  match h.holding? id batch.listId with
  | some range =>
    let (moved, edits) := range.rebase batch.edits skipped
    (h.setHolding id batch.listId moved).send id (.update kind { batch with edits })
  | none => h.send id (.update kind batch)

/-- Push a batch to several connections, and count those it could be sent to. -/
def pushAll (h : Hub) (kind : Kind) (batch : Batch) (skipped : List Nat) :
    List ConnectionId → Hub × Nat
  | [] => (h, 0)
  | id :: ids =>
    let (next, sent) := h.push kind batch skipped id
    let (last, count) := next.pushAll kind batch skipped ids
    (last, count + sent.toNat)

/-- Push a batch to all subscribers of its list, and count those it could be sent to. The edits at
the given places were skipped or trimmed in the whole list. -/
def publish (h : Hub) (kind : Kind) (batch : Batch) (skipped : List Nat) : Hub × Nat :=
  h.pushAll kind batch skipped (h.subscribers batch.listId)

/-! ## Look-ups after a change -/

theorem mem_subscribers (h : Hub) (listId : ListId) (id : ConnectionId) :
    id ∈ h.subscribers listId ↔ (listId, id) ∈ h.subscriptions := by
  have entries : (listId, id) ∈ h.subscriptions
      ↔ ∃ ids, h.audiences.get? listId = some ids ∧ id ∈ ids := by
    simp only [subscriptions, List.mem_flatMap, List.mem_map, Table.get?_eq_some_iff]
    constructor
    · rintro ⟨e, entered, id', among, same⟩
      obtain ⟨rfl, rfl⟩ := Prod.mk.inj same
      exact ⟨e.2, entered, among⟩
    · rintro ⟨ids, entered, among⟩
      exact ⟨(listId, ids), entered, id, among, rfl⟩
  rw [entries, subscribers]
  cases h.audiences.get? listId <;> simp

theorem holding?_setHolding (h : Hub) (id id' : ConnectionId) (listId listId' : ListId)
    (range : Holding) :
    (h.setHolding id listId range).holding? id' listId' =
      if id' = id ∧ listId' = listId then (h.connections.get? id).map fun _ => range
      else h.holding? id' listId' := by
  simp only [holding?, setHolding, Table.get?_modify]
  by_cases hid : id' = id
  · subst hid
    cases h.connections.get? id' <;> simp [Table.get?_insert]
  · simp [hid]

end Hub

end ListSync.Producer
