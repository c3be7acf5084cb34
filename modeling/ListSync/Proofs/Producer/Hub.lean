import ListSync.Producer.Hub
import Mathlib.Data.List.Nodup

/-!
# Who is connected and who has subscribed

Messages and held ranges come and go, while connections, subscriptions and open mailboxes stay as
they are (`Hub.Stays`): only registrations and subscriptions change these. Each of those leaves
every set of subscribers with someone in it, each connection once, and all of them registered
(`Hub.Sound`). A connection that goes is taken out of every set, and a set that becomes empty is
dropped. `mem_subscribe`, `mem_unsubscribe` and `mem_unregister` say who has subscribed afterwards.
-/

namespace ListSync.Producer.Hub

/-! ## What messages and ranges leave as it is -/

/-- The same connections, subscriptions and open mailboxes. -/
structure Stays (h next : Hub) : Prop where
  connections : ∀ id, next.connections.contains id = h.connections.contains id
  audiences : next.audiences = h.audiences
  mailboxes : ∀ id, next.mailboxes.contains id = h.mailboxes.contains id
  used : next.used = h.used

/-- A hub that is left alone stays as it is. -/
theorem Stays.refl (h : Hub) : h.Stays h := ⟨fun _ => rfl, rfl, fun _ => rfl, rfl⟩

/-- What stays as it is twice over stays as it is. -/
theorem Stays.trans {h next last : Hub} (first : h.Stays next) (second : next.Stays last) :
    h.Stays last where
  connections id := (second.connections id).trans (first.connections id)
  audiences := second.audiences.trans first.audiences
  mailboxes id := (second.mailboxes id).trans (first.mailboxes id)
  used := second.used.trans first.used

/-- The same connections have subscribed to each list. -/
theorem Stays.subscribers {h next : Hub} (stays : h.Stays next) (listId : ListId) :
    next.subscribers listId = h.subscribers listId := by
  rw [Hub.subscribers, Hub.subscribers, stays.audiences]

/-- The same subscriptions are there. -/
theorem Stays.subscriptions {h next : Hub} (stays : h.Stays next) :
    next.subscriptions = h.subscriptions := by
  rw [Hub.subscriptions, Hub.subscriptions, stays.audiences]

variable (h : Hub) (id : ConnectionId)

/-- A message that is put into a mailbox leaves connections and subscriptions. -/
theorem stays_post (m : ServerMessage) : h.Stays (h.post id m).1 := by
  unfold post
  split
  · exact ⟨fun _ => rfl, rfl, fun _ => Table.contains_modify .., rfl⟩
  · exact .refl h

/-- A message that is sent leaves connections and subscriptions. -/
theorem stays_send (m : ServerMessage) : h.Stays (h.send id m).1 := by
  unfold send
  split
  · exact h.stays_post id m
  · exact .refl h

/-- A mailbox that is emptied is still open, and all else is as before. -/
theorem stays_drain : h.Stays (h.drain id).1 :=
  ⟨fun _ => rfl, rfl, fun _ => Table.contains_modify .., rfl⟩

/-- A range that is noted leaves connections and subscriptions. -/
theorem stays_setHolding (listId : ListId) (range : Holding) :
    h.Stays (h.setHolding id listId range) :=
  ⟨fun _ => Table.contains_modify .., rfl, fun _ => rfl, rfl⟩

/-- A range that is loaded leaves connections and subscriptions. -/
theorem stays_track (listId : ListId) (start : Int) (count : Nat) :
    h.Stays (h.track id listId start count) := h.stays_setHolding ..

/-- A range that is fetched leaves connections and subscriptions. -/
theorem stays_extend (listId : ListId) (start : Int) (count : Nat) :
    h.Stays (h.extend id listId start count) := by
  unfold extend
  split
  · exact h.stays_setHolding ..
  · exact h.stays_track ..

variable (kind : Kind) (batch : Batch) (skipped : List Nat)

/-- To push a batch to a connection leaves connections and subscriptions. -/
theorem stays_push : h.Stays (h.push kind batch skipped id).1 := by
  unfold push
  split
  · exact (h.stays_setHolding ..).trans (stays_send ..)
  · exact h.stays_send ..

/-- To push a batch to several connections leaves connections and subscriptions. -/
theorem stays_pushAll (ids : List ConnectionId) :
    h.Stays (h.pushAll kind batch skipped ids).1 := by
  induction ids generalizing h with
  | nil => exact .refl h
  | cons id ids ih => exact (h.stays_push id kind batch skipped).trans (ih _)

/-- To publish a batch ends no subscription and begins none. -/
theorem stays_publish : h.Stays (h.publish kind batch skipped).1 :=
  h.stays_pushAll kind batch skipped _

/-! ## Sets of subscribers -/

variable {h id} {ids : List ConnectionId} {listId : ListId}

/-- Some connections have subscribed, each once, and all of them are registered. -/
structure Audience (connections : Table ConnectionId Connection) (ids : List ConnectionId) :
    Prop where
  given : ids ≠ []
  distinct : ids.Nodup
  registered : ∀ id ∈ ids, connections.contains id

/-- Every set of subscribers is one of registered connections and not empty, and the names of all
connections and open mailboxes are noted as used. -/
structure Sound (h : Hub) : Prop where
  audience : ∀ listId ids, h.audiences.get? listId = some ids → Audience h.connections ids
  connections : ∀ id, h.connections.contains id → id ∈ h.used
  mailboxes : ∀ id, h.mailboxes.contains id → id ∈ h.used

/-- A hub where nobody has been is sound. -/
theorem sound_default : Sound {} := ⟨nofun, nofun, nofun⟩

/-- What leaves connections and subscriptions as they are keeps a hub sound. -/
theorem Sound.stays {next : Hub} (sound : h.Sound) (stays : h.Stays next) : next.Sound where
  audience listId ids found := by
    rw [stays.audiences] at found
    obtain ⟨given, distinct, registered⟩ := sound.audience listId ids found
    exact ⟨given, distinct, fun id among => (stays.connections id).trans (registered id among)⟩
  connections id known := stays.used ▸ sound.connections id (stays.connections id ▸ known)
  mailboxes id isOpen := stays.used ▸ sound.mailboxes id (stays.mailboxes id ▸ isOpen)

/-- No connection is twice among the subscribers of a list. -/
theorem Sound.nodup_subscribers (sound : h.Sound) (listId : ListId) :
    (h.subscribers listId).Nodup := by
  rw [subscribers]
  cases found : h.audiences.get? listId with
  | none => exact List.nodup_nil
  | some ids => exact (sound.audience listId ids found).distinct

/-- Who has subscribed is registered. -/
theorem Sound.registered (sound : h.Sound) (subscribed : id ∈ h.subscribers listId) :
    h.connections.contains id := by
  rw [subscribers] at subscribed
  cases found : h.audiences.get? listId with
  | none =>
    rw [found] at subscribed
    exact absurd subscribed List.not_mem_nil
  | some ids =>
    rw [found] at subscribed
    exact (sound.audience listId ids found).registered id subscribed

/-- What is left of a set of subscribers without one of them. -/
theorem without_eq_some_iff {rest : List ConnectionId} :
    without id ids = some rest ↔ rest = ids.filter (· ≠ id) ∧ rest ≠ [] := by
  unfold without
  dsimp only
  split
  · rename_i empty
    refine ⟨nofun, ?_⟩
    rintro ⟨rfl, given⟩
    exact absurd (List.isEmpty_iff.1 empty) given
  · rename_i given
    rw [Option.some.injEq]
    constructor
    · rintro rfl
      exact ⟨rfl, mt List.isEmpty_iff.2 given⟩
    · rintro ⟨rfl, -⟩
      rfl

/-- Those who are left of a set of subscribers are still registered, each once. -/
theorem Audience.without {connections later : Table ConnectionId Connection}
    {rest : List ConnectionId} (audience : Audience connections ids)
    (left : Hub.without id ids = some rest)
    (registered : ∀ other, other ≠ id → connections.contains other → later.contains other) :
    Audience later rest := by
  obtain ⟨rfl, given⟩ := without_eq_some_iff.1 left
  refine ⟨given, audience.distinct.filter _, fun other among => ?_⟩
  obtain ⟨among, apart⟩ := List.mem_filter.1 among
  exact registered other (of_decide_eq_true apart) (audience.registered other among)

/-- Who is left of a set of subscribers without one of them. -/
theorem mem_without {other : ConnectionId} {ids? : Option (List ConnectionId)} :
    other ∈ (ids?.bind (without id)).getD [] ↔ other ∈ ids?.getD [] ∧ other ≠ id := by
  cases ids? with
  | none => simp
  | some ids =>
    have rest : (without id ids).getD [] = ids.filter (· ≠ id) := by
      unfold without
      dsimp only
      split
      · rename_i empty
        exact (List.isEmpty_iff.1 empty).symm
      · rfl
    rw [Option.bind_some, rest, List.mem_filter, decide_eq_true_iff, Option.getD_some]

/-! ## Registrations and subscriptions -/

/-- A subscription changes nothing but the sets of subscribers. -/
theorem subscribe_leaves (h : Hub) (id : ConnectionId) (listId : ListId) :
    (h.subscribe id listId).1 = { h with audiences := (h.subscribe id listId).1.audiences } := by
  unfold Hub.subscribe
  split <;> rfl

/-- Who has subscribed after a subscription: those from before, and the connection if it is
registered. -/
theorem mem_subscribe {other : ConnectionId} {l : ListId} :
    other ∈ (h.subscribe id listId).1.subscribers l
      ↔ other = id ∧ l = listId ∧ h.connections.contains id ∨ other ∈ h.subscribers l := by
  unfold Hub.subscribe
  split
  · rename_i known
    rw [subscribers, Table.get?_insert]
    split
    · rename_i own
      rw [Option.getD_some, List.mem_insert_iff, own, known]
      simp
    · rename_i apart
      simp [apart, subscribers]
  · rename_i unknown
    simp [unknown]

/-- Who has subscribed once a subscription has ended: all others. -/
theorem mem_unsubscribe {other : ConnectionId} {l : ListId} :
    other ∈ (h.unsubscribe id listId).1.subscribers l
      ↔ other ∈ h.subscribers l ∧ ¬(other = id ∧ l = listId) := by
  have after : (h.unsubscribe id listId).1.subscribers l
      = ((h.audiences.adjust listId (without id)).get? l).getD [] := rfl
  rw [after, Table.get?_adjust]
  split
  · rename_i own
    rw [mem_without, own, subscribers]
    simp
  · rename_i apart
    simp [apart, subscribers]

/-- Who has subscribed once a connection has gone: all other connections. -/
theorem mem_unregister (sound : h.Sound) {other : ConnectionId} {l : ListId} :
    other ∈ (h.unregister id).subscribers l ↔ other ∈ h.subscribers l ∧ other ≠ id := by
  unfold Hub.unregister
  split
  · rw [subscribers, Table.get?_filterMap, mem_without, subscribers]
  · -- who is not registered has not subscribed
    rename_i unknown
    refine ⟨fun subscribed => ⟨subscribed, ?_⟩, And.left⟩
    rintro rfl
    exact unknown (sound.registered subscribed)

/-- Who is registered once a connection has gone: all others. -/
theorem connections_unregister {other : ConnectionId} :
    (h.unregister id).connections.contains other ↔ other ≠ id ∧ h.connections.contains other := by
  unfold Hub.unregister
  split
  · exact Table.contains_erase ..
  · rename_i unknown
    refine ⟨fun known => ⟨?_, known⟩, And.right⟩
    rintro rfl
    exact unknown known

/-- What waits for a connection outlives its registration. -/
theorem unregister_leaves (h : Hub) (id : ConnectionId) :
    (h.unregister id).mailboxes = h.mailboxes ∧ (h.unregister id).used = h.used := by
  unfold Hub.unregister
  split <;> exact ⟨rfl, rfl⟩

/-- A connection that comes keeps a hub sound, whatever its name. -/
theorem Sound.registerAs (sound : h.Sound) (id : ConnectionId) : (h.registerAs id).Sound where
  audience listId ids found := by
    obtain ⟨given, distinct, registered⟩ := sound.audience listId ids found
    exact ⟨given, distinct, fun id among =>
      (Table.contains_insert ..).2 (.inr (registered id among))⟩
  connections other known := by
    rcases (Table.contains_insert ..).1 known with rfl | known
    · exact List.mem_cons_self
    · exact List.mem_cons_of_mem _ (sound.connections other known)
  mailboxes other isOpen := by
    rcases (Table.contains_insert ..).1 isOpen with rfl | isOpen
    · exact List.mem_cons_self
    · exact List.mem_cons_of_mem _ (sound.mailboxes other isOpen)

/-- All names so far were found by counting. -/
def Counted (h : Hub) : Prop := ∀ id ∈ h.used, id < h.next

/-- Where nobody has been, no name was given otherwise than by counting. -/
theorem counted_default : Counted {} := nofun

/-- To count connections gives each a name that no other has had. -/
theorem Counted.register (counted : h.Counted) :
    h.register.2 ∉ h.used ∧ h.register.1.Counted := by
  refine ⟨fun taken => Nat.lt_irrefl _ (counted _ taken), fun id taken => ?_⟩
  rcases List.mem_cons.1 taken with rfl | earlier
  · exact Nat.lt_succ_self _
  · exact Nat.lt_succ_of_lt (counted id earlier)

/-- A connection that goes keeps a hub sound. -/
theorem Sound.unregister (sound : h.Sound) (id : ConnectionId) : (h.unregister id).Sound := by
  unfold Hub.unregister
  split
  · refine ⟨fun listId rest found => ?_, fun other known => ?_, sound.mailboxes⟩
    · dsimp only at found
      rw [Table.get?_filterMap] at found
      obtain ⟨ids, found, left⟩ := Option.bind_eq_some_iff.1 found
      exact (sound.audience listId ids found).without left
        fun other apart known => (Table.contains_erase ..).2 ⟨apart, known⟩
    · exact sound.connections other ((Table.contains_erase ..).1 known).2
  · exact sound

/-- A subscription keeps a hub sound. -/
theorem Sound.subscribe (sound : h.Sound) (id : ConnectionId) (listId : ListId) :
    (h.subscribe id listId).1.Sound := by
  unfold Hub.subscribe
  split
  · rename_i known
    refine ⟨fun other ids found => ?_, sound.connections, sound.mailboxes⟩
    dsimp only at found
    rw [Table.get?_insert] at found
    split at found
    · cases found
      refine ⟨List.ne_nil_of_mem (List.mem_insert_iff.2 (.inl rfl)),
        (sound.nodup_subscribers listId).insert, fun other among => ?_⟩
      rcases List.mem_insert_iff.1 among with rfl | among
      · exact known
      · exact sound.registered among
    · exact sound.audience other ids found
  · exact sound

/-- The end of a subscription keeps a hub sound. -/
theorem Sound.unsubscribe (sound : h.Sound) (id : ConnectionId) (listId : ListId) :
    (h.unsubscribe id listId).1.Sound := by
  refine ⟨fun other rest found => ?_, sound.connections, sound.mailboxes⟩
  have found : (h.audiences.adjust listId (without id)).get? other = some rest := found
  rw [Table.get?_adjust] at found
  split at found
  · obtain ⟨ids, found, left⟩ := Option.bind_eq_some_iff.1 found
    exact (sound.audience listId ids found).without left fun _ _ known => known
  · exact sound.audience other rest found

/-- A mailbox that is closed keeps a hub sound. -/
theorem Sound.close (sound : h.Sound) (id : ConnectionId) : (h.close id).1.Sound :=
  ⟨sound.audience, sound.connections,
    fun other isOpen => sound.mailboxes other ((Table.contains_erase ..).1 isOpen).2⟩

end ListSync.Producer.Hub
