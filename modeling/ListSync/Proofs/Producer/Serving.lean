import ListSync.Proofs.Producer.Service

/-!
# A list that is served to a subscriber

`Service.Serves` says how a service stands to a connection that has loaded a range of a list and
subscribed to it. A change of the list moves the tracked range and pushes the rebased batch
(`Serves.change`), a fetch extends the range to what is answered (`Serves.extended`; for an index
list `Serves.fetch`).
-/

namespace ListSync.Producer

/-! ## Segments of a list -/

section

variable {α : Type}

/-- The items from one position up to another. -/
def segment (xs : List α) (p q : Nat) : List α := (xs.take q).drop p

/-- A segment that ends where it begins, or before, is empty. -/
theorem segment_nil (xs : List α) {p q : Nat} (h : q ≤ p) : segment xs p q = [] := by
  rw [segment, List.drop_eq_nil_of_le]
  rw [List.length_take]
  omega

/-- The first items of a segment end with it, or as many items behind its begin. -/
theorem take_segment (xs : List α) (p q n : Nat) :
    (segment xs p q).take n = segment xs p (min q (p + n)) := by
  rw [segment, segment, List.take_drop, List.take_take, Nat.min_comm]

/-- What is left behind the first items of a segment begins as many items later. -/
theorem drop_segment (xs : List α) (p q n : Nat) :
    (segment xs p q).drop n = segment xs (p + n) q := by
  rw [segment, segment, List.drop_drop]

/-- Two segments on end are one. -/
theorem segment_append (xs : List α) {p q r : Nat} (h : p ≤ q) (h' : q ≤ r) :
    segment xs p q ++ segment xs q r = segment xs p r := by
  have front := take_segment xs p r (q - p)
  have back := drop_segment xs p r (q - p)
  rw [Nat.add_sub_cancel' h, Nat.min_eq_right h'] at front
  rw [Nat.add_sub_cancel' h] at back
  rw [← front, ← back, List.take_append_drop]

/-- Two segments that touch, the second of which adds what lies before and behind the first. -/
theorem segment_union (xs : List α) {p q p' q' : Nat} (h : p ≤ q) (front : p' ≤ q) (back : p ≤ q') :
    (segment xs p' q').take (p - p') ++ segment xs p q ++ (segment xs p' q').drop (q - p')
      = segment xs (min p p') (max q q') := by
  have first : (segment xs p' q').take (p - p') ++ segment xs p q = segment xs (min p p') q := by
    rw [take_segment]
    rcases Nat.le_total p' p with before | behind
    · rw [Nat.add_sub_cancel' before, Nat.min_eq_right back, Nat.min_eq_right before,
        segment_append xs before h]
    · rw [segment_nil xs (by omega), List.nil_append, Nat.min_eq_left behind]
  rw [first, drop_segment, Nat.add_sub_cancel' front]
  rcases Nat.le_total q q' with beyond | inside
  · rw [Nat.max_eq_right beyond, segment_append xs (by omega) beyond]
  · rw [Nat.max_eq_left inside, segment_nil xs inside, List.append_nil]

namespace Holding

/-- A range of some items from a position on. -/
theorem ofCount_eq {first n : Nat} (room : ((first + n : Nat) : Int) ≤ Index.greatest) :
    ofCount first n = ⟨first, (first + n : Nat)⟩ := by
  rw [ofCount, Index.ofCount_eq_self (by omega), Index.add_eq_add]
  · rw [Int.natCast_add]
  · exact inRange_of_room room (by omega) (by omega)

/-- A held range that takes in fetched items reaches from the first to the last of both. -/
theorem extend_eq (range : Holding) {first n : Nat}
    (room : ((first + n : Nat) : Int) ≤ Index.greatest) :
    range.extend first n = ⟨min range.start first, max range.stop (first + n : Nat)⟩ := by
  rw [extend, ofCount_eq room]

/-- The range that covers what is held and fetched items that touch it holds both. -/
theorem Holds.extend {range : Holding} {xs mid : List α} (holds : range.Holds xs mid)
    {first last : Nat} (ordered : first ≤ last) (within : last ≤ xs.length)
    (room : (xs.length : Int) ≤ Index.greatest)
    (touches : first ≤ range.stop ∧ range.start ≤ last) :
    (range.extend first (segment xs first last).length).Holds xs
      ((segment xs first last).take (range.start - first).toNat ++ mid
        ++ (segment xs first last).drop (range.stop - first).toNat) := by
  obtain ⟨low, le, high, rfl⟩ := holds_iff.1 holds
  have length : first + (segment xs first last).length = last := by
    rw [segment, List.length_drop, List.length_take]
    omega
  have extended : range.extend first (segment xs first last).length
      = ⟨min range.start first, max range.stop last⟩ := by
    rw [extend_eq range (by omega), length]
  rw [extended, holds_iff]
  refine ⟨Int.le_min.2 ⟨low, by omega⟩, by dsimp only; omega, by dsimp only; omega, ?_⟩
  have front : (range.start - first).toNat = range.start.toNat - first := by omega
  have back : (range.stop - first).toNat = range.stop.toNat - first := by omega
  have starts : (min range.start (first : Int)).toNat = min range.start.toNat first := by omega
  have stops : (max range.stop (last : Int)).toNat = max range.stop.toNat last := by omega
  rw [front, back]
  dsimp only
  rw [starts, stops]
  -- both parts are segments of the list, and so is their union
  exact segment_union xs (by omega) (by omega) (by omega)

end Holding

end

/-! ## Answers to fetches -/

namespace FullList

/-- The answer to a fetch of a range of an index list. -/
def rangeAnswer (l : FullList) (token : CorrelationToken) (start : Int) (count : Nat) :
    RangeAnswer where
  listId := l.id
  token
  version := none
  start := (l.slice start count).1
  minimum := some 0
  maximum := some l.items.length
  items := l.sliceItems (l.slice start count)

/-- The payload with which a range of an index list is loaded. -/
def rangeListing (l : FullList) (q : Query) : IndexListing :=
  let slice := l.slice (q.start.getD 0) (q.count.getD l.pageSize)
  { listId := l.id
    version := some l.version
    start := slice.1
    minimum := some 0
    maximum := some l.items.length
    items := l.sliceItems slice }

variable {l : FullList}

/-- A list without pages answers a fetch of a range with the items that it has there. -/
theorem respond_range (kind : l.kind = .index) (token : CorrelationToken) (listId : ListId)
    (start : Int) (count : Nat) :
    l.respond (.range token listId start count)
      = .ok (.range (l.rangeAnswer token start count)) := by
  simp only [respond, kind]
  rfl

/-- A list without pages is loaded with the items of the range that is asked for. -/
theorem initial_range (kind : l.kind = .index) (q : Query) :
    l.initial q = .ok (.index (l.rangeListing q)) := by
  simp only [initial, kind]
  rfl

/-- The positions of a slice are in order, and none is behind the last item. -/
theorem slice_le (l : FullList) (start : Int) (count : Nat) :
    (l.slice start count).1 ≤ (l.slice start count).2
      ∧ (l.slice start count).2 ≤ l.items.length := by
  unfold slice
  dsimp only
  omega

/-- A slice ends as many items behind its begin as it has. -/
theorem length_sliceItems (l : FullList) (start : Int) (count : Nat) :
    (l.slice start count).1 + (l.sliceItems (l.slice start count)).length
      = (l.slice start count).2 := by
  have ordered := l.slice_le start count
  rw [sliceItems, List.length_drop, List.length_take]
  omega

end FullList

/-! ## Joining -/

namespace Hub

variable {h : Hub} {id : ConnectionId} {listId : ListId}

/-- A connection that is registered holds nothing, and no message waits for it. -/
theorem desk_registerAs (h : Hub) (id : ConnectionId) :
    (h.registerAs id).desk id = ⟨some {}, some []⟩ := by
  simp only [desk, registerAs, Table.get?_insert, if_true]

/-- A subscription does not change what a connection holds, nor what waits for it. -/
theorem desk_subscribe (h : Hub) (id : ConnectionId) (listId : ListId) (other : ConnectionId) :
    (h.subscribe id listId).1.desk other = h.desk other := by
  unfold subscribe
  split <;> rfl

/-- A range that is noted for a known connection is the one that is tracked. -/
theorem holding?_track (known : h.connections.contains id) (first : Int) (n : Nat) :
    (h.track id listId first n).holding? id listId = some (.ofCount first n) := by
  obtain ⟨c, registered⟩ := Option.isSome_iff_exists.1 known
  rw [track, holding?_setHolding, if_pos ⟨rfl, rfl⟩, registered, Option.map_some]

/-- A tracked range is extended to what is fetched. -/
theorem holding?_extend {range : Holding} (tracked : h.holding? id listId = some range)
    (first : Int) (n : Nat) :
    (h.extend id listId first n).holding? id listId = some (range.extend first n) := by
  obtain ⟨c, registered, -⟩ := Option.bind_eq_some_iff.1 tracked
  rw [extend, tracked]
  dsimp only
  rw [holding?_setHolding, if_pos ⟨rfl, rfl⟩, registered, Option.map_some]

end Hub

namespace Service

/-! ## Serving -/

/-- A connection has loaded a range of a list and has subscribed to the list. -/
structure Serves (s : Service) (listId : ListId) (id : ConnectionId) (list : FullList)
    (range : Holding) (waiting : List ServerMessage) : Prop where
  sound : s.Sound
  backing : s.catalog.find listId = .ok list
  subscribed : (listId, id) ∈ s.hub.subscriptions
  tracked : s.hub.holding? id listId = some range
  mailbox : (s.hub.desk id).waiting? = some waiting

variable {s : Service} {listId : ListId} {id : ConnectionId} {list : FullList} {range : Holding}
  {waiting : List ServerMessage}

/-- The list that is served has the name under which it is served. -/
theorem Serves.named (serves : s.Serves listId id list range waiting) : list.id = listId :=
  serves.sound.named listId list (Catalog.find_eq_ok_iff.1 serves.backing)

/-- A change moves the tracked range along, and pushes the batch as it is rebased for the range. -/
theorem Serves.change (serves : s.Serves listId id list range waiting) {edits : List (Edit Item)}
    (given : edits ≠ []) :
    (s.step (.change listId edits)).Serves listId id (list.edited edits)
      (range.rebaseAll (Edit.survivors list.items edits)).1
      (waiting ++ [.update list.kind ⟨listId, list.version + 1,
        (range.rebaseAll (Edit.survivors list.items edits)).2⟩]) := by
  obtain ⟨tracked, mailbox⟩ := desk_change_of_holding serves.sound serves.backing given
    serves.subscribed serves.tracked serves.mailbox
  refine ⟨serves.sound.step _, ?_, ?_, tracked, mailbox⟩
  · exact (find_change serves.backing given listId).trans (if_pos rfl)
  · show _ ∈ (s.change listId edits).1.hub.subscriptions
    rw [subscriptions_change]
    exact serves.subscribed

/-- The client takes what waits for it. -/
theorem Serves.drain (serves : s.Serves listId id list range waiting) :
    (s.step (.drain id)).Serves listId id list range [] where
  sound := serves.sound.step _
  backing := serves.backing
  subscribed := serves.subscribed
  tracked := serves.tracked
  mailbox := by
    have box : s.hub.mailboxes.get? id = some waiting := serves.mailbox
    show (s.hub.mailboxes.modify id fun _ => []).get? id = _
    rw [Table.get?_modify, if_pos rfl, box, Option.map_some]

/-- To fetch a range of an index list is to have the tracked range extended to it. -/
theorem answer_fetch (found : s.catalog.find listId = .ok list) (kind : list.kind = .index)
    (id : ConnectionId) (token : CorrelationToken) (start : Int) (count : Nat)
    (requestId : Option String) :
    s.answer id (.fetch (.range token listId start count) requestId)
      = (s.withHub (·.extend id listId (list.slice start count).1
          (list.rangeAnswer token start count).items.length),
        .fetched (.range (list.rangeAnswer token start count)) requestId) := by
  have fetched : s.fetch none (.range token listId start count)
      = .ok (.range (list.rangeAnswer token start count)) := by
    simp only [Service.fetch, Catalog.fetch, FetchRequest.listId, found,
      FullList.respond_range kind, served, bind, Except.bind]
  simp only [Service.answer, fetched]
  rfl

/-- The tracked range is extended at the connection, and nothing else of the service changes. -/
theorem Serves.extended (serves : s.Serves listId id list range waiting) (first : Int) (n : Nat) :
    (s.withHub (·.extend id listId first n)).Serves listId id list (range.extend first n)
      waiting := by
  have extended : s.hub.extend id listId first n
      = s.hub.setHolding id listId (range.extend first n) := by
    rw [Hub.extend, serves.tracked]
  have tracked := Hub.holding?_extend serves.tracked first n
  rw [withHub]
  rw [extended] at tracked ⊢
  exact ⟨⟨serves.sound.named, serves.sound.hub.stays (Hub.stays_setHolding ..)⟩, serves.backing,
    serves.subscribed, tracked, serves.mailbox⟩

/-- A fetch extends the tracked range to the items of the answer. -/
theorem Serves.fetch (serves : s.Serves listId id list range waiting) (kind : list.kind = .index)
    (token : CorrelationToken) (start : Int) (count : Nat) (requestId : Option String) :
    (s.answer id (.fetch (.range token listId start count) requestId)).2
        = .fetched (.range (list.rangeAnswer token start count)) requestId
      ∧ (s.answer id (.fetch (.range token listId start count) requestId)).1.Serves listId id list
        (range.extend (list.slice start count).1 (list.rangeAnswer token start count).items.length)
        waiting := by
  rw [answer_fetch serves.backing kind]
  exact ⟨rfl, serves.extended ..⟩

/-! ## Loading a list -/

/-- A new connection loads a range of a list and subscribes to the list. -/
def join (s : Service) (id : ConnectionId) (listId : ListId) (q : Query) : Service :=
  ((s.step (.connect id)).step (.message id (.load listId q none))).step
    (.message id (.subscribe listId none))

/-- What the new connection is answered when it loads the list. -/
def joinAnswer (s : Service) (id : ConnectionId) (listId : ListId) (q : Query) : ServerMessage :=
  ((s.step (.connect id)).answer id (.load listId q none)).2

/-- To load a range of an index list is to have it tracked. -/
theorem answer_load (found : s.catalog.find listId = .ok list) (kind : list.kind = .index)
    (id : ConnectionId) (q : Query) (requestId : Option String) :
    s.answer id (.load listId q requestId)
      = (s.withHub (·.track id listId (list.rangeListing q).start
          (list.rangeListing q).items.length),
        .loaded (.index (list.rangeListing q)) requestId) := by
  have loaded : s.load listId q = .ok (.index (list.rangeListing q)) := by
    simp only [Service.load, Catalog.initial, found, FullList.initial_range kind, served, bind,
      Except.bind]
  simp only [Service.answer, loaded]
  rfl

/-- The message that asks for a subscription to a list subscribes the connection. -/
theorem answer_subscribe (found : s.catalog.find listId = .ok list) (id : ConnectionId)
    (requestId : Option String) : (s.answer id (.subscribe listId requestId)).1
      = s.withHub fun h => (h.subscribe id listId).1 := by
  simp only [answer, Catalog.summary, found, Except.map]

/-- A new connection that has a range of a list tracked for it, whatever it is answered, and that
subscribes to the list is served. -/
theorem serves_join_of_answer (sound : s.Sound) (found : s.catalog.find listId = .ok list)
    {q : Query} {first : Int} {n : Nat} {m : ServerMessage}
    (answered : (s.step (.connect id)).answer id (.load listId q none)
      = ((s.step (.connect id)).withHub (·.track id listId first n), m)) :
    s.joinAnswer id listId q = m
      ∧ (s.join id listId q).Serves listId id list (.ofCount first n) [] := by
  refine ⟨congrArg Prod.snd answered, ?_⟩
  generalize hub : (s.hub.registerAs id).track id listId first n = tracking
  have joined : s.join id listId q = { s with hub := (tracking.subscribe id listId).1 } := by
    show (((s.step (.connect id)).answer id (.load listId q none)).1.answer id
      (.subscribe listId none)).1 = _
    rw [answered, ← hub]
    exact answer_subscribe (s := (s.step (.connect id)).withHub _) found ..
  -- the connection is known, so that the range can be noted and the subscription made
  have desk : tracking.desk id
      = (Desk.mk (some {}) (some [])).setHolding listId (.ofCount first n) := by
    rw [← hub, Hub.track, Hub.desk_setHolding, if_pos rfl, Hub.desk_registerAs]
  have known : tracking.connections.contains id :=
    congrArg (fun d : Desk => d.connection?.isSome) desk
  have sound' : (s.join id listId q).Sound :=
    ((sound.step (.connect id)).step (.message id (.load listId q none))).step
      (.message id (.subscribe listId none))
  rw [joined] at sound' ⊢
  have subscribed : id ∈ (tracking.subscribe id listId).1.subscribers listId :=
    Hub.mem_subscribe.2 (.inl ⟨rfl, rfl, known⟩)
  refine ⟨sound', found, (Hub.mem_subscribers ..).1 subscribed, ?_, ?_⟩
  · rw [← Hub.holding?_desk, Hub.desk_subscribe, desk]
    simp [Desk.setHolding, Desk.holding?, Table.get?_insert]
  · rw [Hub.desk_subscribe, desk]
    rfl

/-- A new connection that loads a range of an index list and subscribes to the list is served. -/
theorem serves_join (sound : s.Sound) (found : s.catalog.find listId = .ok list)
    (kind : list.kind = .index) (id : ConnectionId) (q : Query) :
    s.joinAnswer id listId q = .loaded (.index (list.rangeListing q)) none
      ∧ (s.join id listId q).Serves listId id list
        (.ofCount (list.rangeListing q).start (list.rangeListing q).items.length) [] :=
  serves_join_of_answer sound found (answer_load (s := s.step (.connect id)) found kind ..)

end Service

end ListSync.Producer
