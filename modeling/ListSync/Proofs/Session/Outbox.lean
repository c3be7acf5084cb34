import ListSync.Proofs.Session.Picture
import ListSync.Proofs.Session.Posting

/-!
# What a session sends for a list

A session is `Quiet` while nothing waits in its outbox. It stays quiet whatever it takes in, and an
access leaves in the outbox the requests for what it calls for. These are taken out at once
(`Session.access`): the picture that the session shows stays as it was, and the new requests are
awaited along with the earlier ones (`Shows.access`).
-/

namespace ListSync

/-- The window that a listing gives, with nothing in flight. -/
def IndexListing.window (p : IndexListing) : IndexWindow where
  minimum := p.minimum
  maximum := p.maximum
  start := p.start
  count := p.items.length

/-- The list that a listing gives. -/
def IndexListing.list (p : IndexListing) : LoadedList := ⟨p.listId, p.items, .index p.window⟩

namespace Session

open Producer

variable {s : Session} {listId : ListId} {p : Picture} {tokens : List CorrelationToken}

/-! ## What waits to be sent -/

/-- Nothing waits to be sent, and requests will wait in the outbox. -/
structure Quiet (s : Session) : Prop where
  unheard : s.listening = false
  outbox : s.outbox = []

/-- A session stays quiet while it posts nothing. -/
theorem Quiet.of_post {next : Session} (quiet : s.Quiet) (same : next.post = s.post) :
    next.Quiet where
  unheard := (congrArg Post.listening same).trans quiet.unheard
  outbox := (congrArg Post.outbox same).trans quiet.outbox

/-- To take in an update asks for nothing. -/
theorem Quiet.apply (quiet : s.Quiet) (kindName : String) (payload : Json) :
    (s.apply kindName payload).1.Quiet := quiet.of_post (s.post_apply ..)

theorem Quiet.install (quiet : s.Quiet) (list : LoadedList) (version : Option Version) :
    (s.install list version).1.Quiet := by
  refine quiet.of_post ((s.post_install list version).trans ?_)
  rw [quiet.outbox, List.filter_nil, ← quiet.outbox]
  rfl

theorem Quiet.register (quiet : s.Quiet) (kindName : String) (payload : Json) :
    (s.register kindName payload).1.Quiet := by
  unfold Session.register registerBy
  split
  · exact quiet
  · split
    · exact quiet.of_post (s.post_reject ..)
    · exact quiet.install ..

/-- To take in a message asks for nothing. -/
theorem Quiet.receive (quiet : s.Quiet) (m : ServerMessage) : (s.receive m).Quiet := by
  cases m with
  | loaded p requestId => exact quiet.register ..
  | fetched a requestId => exact quiet.apply ..
  | update kind b => exact quiet.apply ..
  | _ => exact quiet

/-! ## Accesses -/

/-- An index of a list is wanted: the requests that this calls for are taken from the outbox. -/
def access (s : Session) (listId : ListId) (i : Int) : Session × List FetchRequest :=
  (s.ensureIndex listId i).1.takeRequests

/-- An access changes nothing of the picture, and what it asks for is awaited. -/
theorem Shows.access (shows : s.Shows listId p) (sound : s.core.Sound) (quiet : s.Quiet)
    (awaits : s.Awaits listId tokens) (i : Int) :
    ∃ rs : List Request, (s.access listId i).2 = rs.map Request.toFetch
      ∧ (∀ r ∈ rs, r.listId = listId ∧ r.kind = .index)
      ∧ (s.access listId i).1.core.Sound ∧ (s.access listId i).1.Shows listId p
      ∧ (s.access listId i).1.Quiet
      ∧ (s.access listId i).1.Awaits listId (tokens ++ rs.map (·.token)) := by
  obtain ⟨l, w, found, loaded, items, start, count⟩ := shows.loaded
  obtain ⟨_, -, -, asked⟩ := asked_fetchRanges sound found loaded (w.plan s.policy i)
  obtain ⟨rs, posted⟩ := posted_fetchRanges sound.requests listId (w.plan s.policy i)
  -- the tokens that are awaited are those of earlier requests
  have distinct := posted.sound.distinct
  rw [posted.pending, List.map_append, List.nodup_append] at distinct
  rw [Session.access, ensureIndex_of_loaded (sound.unfinished found) found loaded]
  refine ⟨rs, ?_, posted.own, asked.sound, ⟨shows.sane, ⟨_, _, asked.found found, rfl, items,
    start, count⟩, ?_⟩, ⟨posted.listening.trans quiet.unheard, rfl⟩, ?_, ?_⟩
  · rw [takeRequests, posted.outbox, quiet.outbox, quiet.unheard, List.nil_append]
    rfl
  · exact (congrArg (·.current? listId) asked.versions).trans shows.version
  · refine List.nodup_append.2 ⟨awaits.distinct, distinct.2.1, ?_⟩
    intro token owed
    obtain ⟨r, earlier, named, -⟩ := awaits.pending token owed
    exact named ▸ distinct.2.2 r.token
      (List.mem_map_of_mem (RequestTable.mem_pendingFor.1 earlier).1)
  · show ∀ token ∈ _,
      ∃ r ∈ (s.fetchRanges listId (w.plan s.policy i)).1.requests.pendingFor listId, _
    rw [posted.pendingFor]
    intro token owed
    rcases List.mem_append.1 owed with earlier | new
    · obtain ⟨r, earlier, known⟩ := awaits.pending token earlier
      exact ⟨r, List.mem_append_left _ earlier, known⟩
    · obtain ⟨r, new, named⟩ := List.mem_map.1 new
      exact ⟨r, List.mem_append_right _ new, named, (posted.own r new).2⟩

/-! ## The first payload -/

/-- The first payload of an index list is read as it was written, unless its bounds are at fault. -/
theorem readList_listing {p : IndexListing} (inRange : (Listing.index p).InRange)
    (version : ∀ v ∈ p.version, v ≤ maxCount) :
    readList Kind.index.name (Listing.index p).toJson
      = match p.window.fault? with
        | some fault => .error (.inconsistentRange p.listId fault.message)
        | none => .ok (p.list, p.version) := by
  have parsed := Listing.parse_toJson_index inRange version
  have kind : Kind.parse Kind.index.name = .ok .index := rfl
  simp only [readList, kind, parsed, bind, Except.bind, LoadedList.ofPayload, IndexWindow.create]
  cases h : (IndexWindow.mk p.minimum p.maximum p.start p.items.length []).fault? with
  | some fault => simp [IndexListing.window, h]
  | none => simp [IndexListing.window, IndexListing.list, h, Listing.version, pure, Except.pure]

/-- A listing without a fault is taken in. -/
theorem register_listing {s : Session} {p : IndexListing} (unfinished : s.finished = false)
    (inRange : (Listing.index p).InRange) (version : ∀ v ∈ p.version, v ≤ maxCount)
    (sound : p.window.fault? = none) : s.register Kind.index.name (Listing.index p).toJson
      = ((s.install p.list p.version).1, .ok (s.install p.list p.version).2) := by
  refine register_of_read unfinished ?_
  rw [readList_listing inRange version, sound]

/-- A listing that is taken in is one without a fault. -/
theorem fault?_of_registered {s : Session} {p : IndexListing} {handle : Handle}
    (inRange : (Listing.index p).InRange) (version : ∀ v ∈ p.version, v ≤ maxCount)
    (registered : (s.register Kind.index.name (Listing.index p).toJson).2 = .ok handle) :
    s.finished = false ∧ p.window.fault? = none := by
  have read := readList_listing inRange version
  unfold register registerBy at registered
  split at registered
  · cases registered
  · rename_i unfinished
    rw [read] at registered
    cases h : p.window.fault? with
    | some fault => simp [h] at registered
    | none => exact ⟨by simpa using unfinished, rfl⟩

/-- A new session shows what is loaded of a list once that is handed to it. -/
theorem shows_of_loaded {policy : Policy} {s : Session} (made : create policy = .ok s)
    {p : IndexListing} {v : Version} {n : Nat} (version : p.version = some v) (fits : v ≤ maxCount)
    (minimum : p.minimum = some 0) (maximum : p.maximum = some (n : Int)) (low : 0 ≤ p.start)
    (within : p.start + p.items.length ≤ n) (room : (n : Int) ≤ Index.greatest)
    (requestId : Option String) :
    (s.receive (.loaded (.index p) requestId)).core.Sound
      ∧ (s.receive (.loaded (.index p) requestId)).Shows p.listId ⟨p.start, p.items, v⟩
      ∧ (s.receive (.loaded (.index p) requestId)).Awaits p.listId []
      ∧ (s.receive (.loaded (.index p) requestId)).Quiet := by
  have sound := sound_create made
  obtain ⟨policy', -, rfl⟩ := eq_of_create made
  have inRange : (Listing.index p).InRange :=
    ⟨inRange_of_room room low (by omega), inRange_of_known minimum maximum room⟩
  have valid : p.window.fault? = none :=
    IndexWindow.fault?_of_known low minimum maximum within room
  -- the payload is read as it was written, so the list is taken in
  have received : Session.receive { policy := policy' } (.loaded (.index p) requestId)
      = (install { policy := policy' } p.list (some v)).1 := by
    rw [← version]
    exact congrArg Prod.fst
      (register_listing rfl inRange (by rw [version]; rintro _ ⟨⟩; exact fits) valid)
  have quiet : Quiet { policy := policy' } := ⟨rfl, rfl⟩
  refine ⟨(effects_step sound (.register _ _)).sound, ?_, ⟨List.nodup_nil, by simp⟩, ?_⟩
  · rw [received]
    refine ⟨⟨low, Int.le_trans within room⟩, ⟨p.list, p.window, ?_, rfl, rfl, rfl, rfl⟩, ?_⟩
    · exact (find?_install sound ..).trans (if_pos rfl)
    · exact (version?_install ..).trans (if_pos rfl)
  · rw [received]
    exact quiet.install ..

end Session

end ListSync
