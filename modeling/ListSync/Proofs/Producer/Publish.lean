import ListSync.Proofs.Producer.Hub

/-!
# What a batch does to each connection

A hub keeps for each connection the ranges it holds and the messages that wait for it; that is its
`Desk`. A batch that is pushed to a connection is a matter of that desk alone (`desk_push`), so a
batch that is published does the same to the desk of each subscriber, once and in any order, and
nothing to those of all others (`desk_publish`).
-/

namespace ListSync.Producer

/-- What a hub keeps for a connection. -/
structure Desk where
  connection? : Option Connection
  /-- The messages that wait, if the mailbox is open. -/
  waiting? : Option (List ServerMessage)

namespace Desk

/-- The range of a list that is held. -/
def holding? (d : Desk) (listId : ListId) : Option Holding :=
  d.connection?.bind (·.holdings.get? listId)

/-- Put a message to those that wait. -/
def post (d : Desk) (m : ServerMessage) : Desk :=
  { d with waiting? := d.waiting?.map (· ++ [m]) }

/-- Put a message to those that wait for a registered connection. -/
def send (d : Desk) (m : ServerMessage) : Desk :=
  if d.connection?.isSome then d.post m else d

/-- Set the range of a list that is held. -/
def setHolding (d : Desk) (listId : ListId) (range : Holding) : Desk :=
  { d with connection? := d.connection?.map fun c =>
      { c with holdings := c.holdings.insert listId range } }

/-- Push a batch. -/
def push (d : Desk) (kind : Kind) (batch : Batch) (skipped : List Nat) : Desk :=
  match d.holding? batch.listId with
  | some range =>
    (d.setHolding batch.listId (range.rebase batch.edits skipped).1).send
      (.update kind { batch with edits := (range.rebase batch.edits skipped).2 })
  | none => d.send (.update kind batch)

end Desk

namespace Hub

/-- What a hub keeps for a connection. -/
def desk (h : Hub) (id : ConnectionId) : Desk := ⟨h.connections.get? id, h.mailboxes.get? id⟩

variable (h : Hub) (id other : ConnectionId)

theorem holding?_desk (listId : ListId) : (h.desk id).holding? listId = h.holding? id listId := rfl

/-! ## Changes of a desk -/

/-- A message that is posted changes the desk of its connection only. -/
theorem desk_post (m : ServerMessage) :
    (h.post id m).1.desk other = if other = id then (h.desk id).post m else h.desk other := by
  unfold post Table.contains
  cases box : h.mailboxes.get? id with
  | none =>
    rw [Option.isSome_none, if_neg Bool.false_ne_true]
    by_cases own : other = id
    · subst own
      simp [desk, Desk.post, box]
    · rw [if_neg own]
  | some waiting =>
    rw [Option.isSome_some, if_pos rfl]
    simp only [desk, Table.get?_modify]
    by_cases own : other = id
    · subst own
      rw [if_pos rfl, if_pos rfl]
      rfl
    · rw [if_neg own, if_neg own]

/-- A message that is sent changes the desk of its connection only. -/
theorem desk_send (m : ServerMessage) :
    (h.send id m).1.desk other = if other = id then (h.desk id).send m else h.desk other := by
  unfold send Table.contains
  cases known : h.connections.get? id with
  | none =>
    rw [Option.isSome_none, if_neg Bool.false_ne_true]
    by_cases own : other = id
    · subst own
      simp [desk, Desk.send, known]
    · rw [if_neg own]
  | some connection =>
    have registered : (h.desk id).connection?.isSome := by simp [desk, known]
    rw [Option.isSome_some, if_pos rfl, desk_post, Desk.send, if_pos registered]

/-- A range that is held from now on changes the desk of its connection only. -/
theorem desk_setHolding (listId : ListId) (range : Holding) :
    (h.setHolding id listId range).desk other
      = if other = id then (h.desk id).setHolding listId range else h.desk other := by
  simp only [desk, setHolding, Desk.setHolding, Table.get?_modify]
  by_cases own : other = id
  · subst own
    rw [if_pos rfl, if_pos rfl]
  · rw [if_neg own, if_neg own]

variable (kind : Kind) (batch : Batch) (skipped : List Nat)

/-- A batch that is pushed to a connection is a matter of its desk alone. -/
theorem desk_push :
    (h.push kind batch skipped id).1.desk other
      = if other = id then (h.desk id).push kind batch skipped else h.desk other := by
  unfold push Desk.push
  rw [holding?_desk]
  cases h.holding? id batch.listId with
  | none => exact h.desk_send id other _
  | some range =>
    simp only [desk_send, desk_setHolding, if_true]
    by_cases own : other = id
    · rw [if_pos own, if_pos own]
    · rw [if_neg own, if_neg own, if_neg own]

/-- A batch that is pushed to several connections reaches each of their desks once. -/
theorem desk_pushAll {ids : List ConnectionId} (distinct : ids.Nodup) :
    (h.pushAll kind batch skipped ids).1.desk other
      = if other ∈ ids then (h.desk other).push kind batch skipped else h.desk other := by
  induction ids generalizing h with
  | nil => rw [if_neg List.not_mem_nil, pushAll]
  | cons id ids ih =>
    obtain ⟨fresh, distinct⟩ := List.nodup_cons.1 distinct
    -- the first connection is not among the others, so its desk is not touched again
    have rest : (h.pushAll kind batch skipped (id :: ids)).1
        = ((h.push kind batch skipped id).1.pushAll kind batch skipped ids).1 := rfl
    rw [rest, ih _ distinct, desk_push]
    by_cases own : other = id
    · subst own
      rw [if_neg fresh, if_pos rfl, if_pos List.mem_cons_self]
    · rw [if_neg own]
      simp only [List.mem_cons, own, false_or]

/-- A batch that is published reaches the desk of each subscriber once, and no other. -/
theorem desk_publish {h : Hub} (sound : h.Sound) :
    (h.publish kind batch skipped).1.desk other
      = if (batch.listId, other) ∈ h.subscriptions then (h.desk other).push kind batch skipped
        else h.desk other := by
  have reached := h.mem_subscribers batch.listId other
  rw [publish, desk_pushAll h other kind batch skipped (sound.nodup_subscribers _)]
  simp only [reached]

/-! ## How many are reached -/

/-- A batch is sent to a connection that is registered and whose mailbox is open. -/
theorem sent_push :
    (h.push kind batch skipped id).2 = (h.connections.contains id && h.mailboxes.contains id) := by
  have sent (h' : Hub) (m : ServerMessage) :
      (h'.send id m).2 = (h'.connections.contains id && h'.mailboxes.contains id) := by
    unfold send post
    split
    · rename_i known
      rw [known, Bool.true_and]
      split <;> simp_all
    · rename_i unknown
      rw [Bool.eq_false_iff.2 unknown, Bool.false_and]
  unfold push
  split
  · rw [sent, (h.stays_setHolding ..).connections, (h.stays_setHolding ..).mailboxes]
  · rw [sent]

/-- A push reaches the connections that are registered and have an open mailbox. -/
theorem count_pushAll (ids : List ConnectionId) : (h.pushAll kind batch skipped ids).2
    = (ids.filter fun id => h.connections.contains id && h.mailboxes.contains id).length := by
  induction ids generalizing h with
  | nil => rfl
  | cons id ids ih =>
    have stays := h.stays_push id kind batch skipped
    have rest : (h.pushAll kind batch skipped (id :: ids)).2
        = ((h.push kind batch skipped id).1.pushAll kind batch skipped ids).2
          + (h.push kind batch skipped id).2.toNat := rfl
    rw [rest, ih, sent_push]
    simp only [stays.connections, stays.mailboxes]
    rw [List.filter_cons]
    cases h.connections.contains id && h.mailboxes.contains id <;> rfl

/-- A batch that is published is sent to the subscribers whose mailboxes are open. -/
theorem count_publish {h : Hub} (sound : h.Sound) : (h.publish kind batch skipped).2
    = ((h.subscribers batch.listId).filter fun id => h.mailboxes.contains id).length := by
  rw [publish, count_pushAll]
  congr 1
  refine List.filter_congr fun id subscribed => ?_
  rw [sound.registered subscribed, Bool.true_and]

end Hub

/-! ## What is pushed -/

namespace Desk

variable {d : Desk} {kind : Kind} {batch : Batch} {skipped : List Nat}

/-- A registered connection that holds a range of the list gets the edits rebased for it. -/
theorem push_of_holding (kind : Kind) (batch : Batch) (skipped : List Nat) {range : Holding}
    {waiting : List ServerMessage} (held : d.holding? batch.listId = some range)
    (box : d.waiting? = some waiting) :
    (d.push kind batch skipped).holding? batch.listId
        = some (range.rebase batch.edits skipped).1
      ∧ (d.push kind batch skipped).waiting? = some (waiting
        ++ [.update kind { batch with edits := (range.rebase batch.edits skipped).2 }]) := by
  obtain ⟨connection, registered, -⟩ := Option.bind_eq_some_iff.1 held
  rw [push, held]
  simp [send, setHolding, post, holding?, registered, box, Table.get?_insert]

/-- A batch leaves what is held of other lists. -/
theorem holding?_push_other {listId : ListId} (apart : listId ≠ batch.listId) :
    (d.push kind batch skipped).holding? listId = d.holding? listId := by
  unfold push send
  cases registered : d.connection? with
  | none => simp [holding?, registered]
  | some connection =>
    split <;> simp [setHolding, post, holding?, registered, Table.get?_insert, apart]

/-- A message that is sent waits behind the others, or is dropped. -/
theorem waiting_send {waiting : List ServerMessage} (box : d.waiting? = some waiting)
    (m : ServerMessage) :
    ∃ pushed, (d.send m).waiting? = some (waiting ++ pushed) ∧ ∀ m' ∈ pushed, m' = m := by
  unfold send
  split
  · refine ⟨[m], by rw [post, box, Option.map_some], ?_⟩
    intro m' h
    exact List.mem_singleton.1 h
  · refine ⟨[], by rw [box, List.append_nil], ?_⟩
    intro m' h
    cases h

/-- Nothing but updates of its list comes of a batch. -/
theorem waiting_push {waiting : List ServerMessage} (box : d.waiting? = some waiting) :
    ∃ pushed, (d.push kind batch skipped).waiting? = some (waiting ++ pushed)
      ∧ ∀ m ∈ pushed, ∃ b, m = .update kind b ∧ b.listId = batch.listId := by
  unfold push
  split
  · rename_i range held
    obtain ⟨pushed, after, only⟩ := waiting_send
      (show (d.setHolding batch.listId (range.rebase batch.edits skipped).1).waiting?
        = some waiting from box)
      (.update kind { batch with edits := (range.rebase batch.edits skipped).2 })
    refine ⟨pushed, after, ?_⟩
    intro m h
    exact ⟨_, only m h, rfl⟩
  · obtain ⟨pushed, after, only⟩ := waiting_send box (.update kind batch)
    refine ⟨pushed, after, ?_⟩
    intro m h
    exact ⟨_, only m h, rfl⟩

end Desk

end ListSync.Producer
