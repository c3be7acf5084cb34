import ListSync.Proofs.Plan
import ListSync.Proofs.Session.Bounds
import ListSync.Proofs.Session.Pages
import ListSync.Proofs.Session.Posting
import ListSync.Proofs.Settled

/-!
# Messages between a session and its producer

What one side writes the other reads as the same message, whether its members arrive as they were
written or sorted by name (`Json.Arrives`): listings, answers and batches whose numbers fit 64 bits
and whose items are plain values, and every request that a session has issued
(`messages_read_back`). Of a request nothing has to be assumed, because a session asks for ranges
that start at an index and for no more items than there are indices (`Asks`).
-/

namespace ListSync

/-- A value arrives with its members as they were written, or sorted by name. -/
inductive Json.Arrives (j : Json) : Json → Prop
  | written : Arrives j j
  | sorted : Arrives j j.settle

/-! ## Listings -/

namespace Listing

/-- A listing whose numbers fit 64 bits and whose items are plain values. -/
structure Proper (p : Listing) : Prop where
  inRange : p.InRange
  version : ∀ v ∈ p.version, v ≤ maxCount
  plain : p.settle = p

variable {p : Listing}

/-- The first payload of a list is an object that names every member once. -/
theorem distinct_members (p : Listing) :
    ∃ members, p.toJson = .obj members ∧ (members.map (·.1)).Nodup := by
  cases p with
  | index p =>
    refine ⟨_, rfl, ?_⟩
    have names := p.sublist_members.cons_cons "type"
    exact names.nodup (by decide)
  | token p =>
    refine ⟨_, rfl, ?_⟩
    have names := p.sublist_members.cons_cons "type"
    exact names.nodup (by decide)

/-- A proper payload is read as the one it was written from, however its members are ordered. -/
theorem Proper.parse_of_arrives (proper : p.Proper) {j : Json} (arrives : p.toJson.Arrives j) :
    parse p.kind j = .ok p := by
  have written : parse p.kind p.toJson = .ok p := by
    obtain ⟨inRange, version, -⟩ := proper
    cases p with
    | index p => exact parse_toJson_index inRange version
    | token p => exact parse_toJson_token version
  cases arrives with
  | written => exact written
  | sorted =>
    obtain ⟨members, form, distinct⟩ := p.distinct_members
    rw [form] at written ⊢
    rw [parse_settle distinct written, proper.plain]

end Listing

/-! ## Updates -/

namespace Update

/-- The numbers of an update fit 64 bits. -/
def InRange : Update → Prop
  | batch b => b.InRange
  | range a => a.InRange ∧ ∀ v ∈ a.version, v ≤ maxCount
  | page a => ∀ v ∈ a.version, v ≤ maxCount

/-- An update whose numbers fit 64 bits and whose items are plain values. -/
structure Proper (u : Update) : Prop where
  inRange : u.InRange
  plain : u.settle = u

/-- An update that is written for a list is read as this update, for a list of its kind. -/
theorem Proper.parse_of_arrives {u : Update} (proper : u.Proper) {kind : Kind}
    (fits : ∀ k ∈ u.kind?, k = kind) {j : Json} (arrives : u.toJson.Arrives j) :
    parse kind j = .ok u := by
  have written : parse kind u.toJson = .ok u := by
    obtain ⟨inRange, -⟩ := proper
    cases u with
    | batch b => exact parse_toJson_batch inRange kind
    | range a =>
      obtain rfl := fits .index rfl
      exact parse_toJson_range inRange.1 inRange.2
    | page a =>
      obtain rfl := fits .token rfl
      exact parse_toJson_page inRange
  cases arrives with
  | written => exact written
  | sorted => rw [parse_settle written, proper.plain]

end Update

/-- An answer as the update that it is for a client. -/
def Answer.update : Answer → Update
  | range a => .range a
  | page a => .page a

/-- A proper answer is read as the one it was written from, however its members are ordered. -/
theorem Answer.parse_of_arrives {a : Answer} (proper : a.update.Proper) {j : Json}
    (arrives : a.toJson.Arrives j) : Update.parse a.kind j = .ok a.update := by
  cases a with
  | range a => exact proper.parse_of_arrives (by rintro _ ⟨⟩; rfl) arrives
  | page a => exact proper.parse_of_arrives (by rintro _ ⟨⟩; rfl) arrives

/-! ## Requests -/

namespace FetchRequest

/-- A request for a range starts at an index, and its count fits 64 bits. -/
def Proper : FetchRequest → Prop
  | range _ _ start count => Index.InRange start ∧ count ≤ maxCount
  | page .. => True

/-- A request is read as the request that it is, also where it could be one of either kind. -/
theorem Proper.ofJson?_of_arrives {f : FetchRequest} (proper : f.Proper) {j : Json}
    (arrives : f.toJson.Arrives j) : ofJson? j = some f := by
  cases f with
  | range token listId start count =>
    obtain ⟨first, fits⟩ := proper
    have sorted : (range token listId start count).toJson.settle
        = .obj [("correlationToken", .str token), ("count", Json.ofNat count),
          ("listId", .str listId), ("startIndex", Json.ofInt start)] := rfl
    cases arrives with
    | written =>
      simp [ofJson?, rangeOfJson?, toJson, Json.namedRecord?, Json.record?, Field.name,
        Record.required, List.lookup_cons, Json.string?, first, fits]
    | sorted =>
      simp [sorted, ofJson?, rangeOfJson?, Json.namedRecord?, Json.record?, Field.name,
        Record.required, List.lookup_cons, Json.string?, first, fits]
  | page token listId wanted =>
    have sorted : (page token listId wanted).toJson.settle
        = (page token listId wanted).toJson := rfl
    -- there is no first index, so it is no request for a range
    have read : ofJson? (page token listId wanted).toJson = some (page token listId wanted) := by
      simp [ofJson?, rangeOfJson?, pageOfJson?, toJson, Json.namedRecord?, Json.record?,
        Field.name, Record.required, List.lookup_cons, Json.string?]
    cases arrives with
    | written => exact read
    | sorted => rwa [sorted]

end FetchRequest

/-- A range from one index to another is not longer than there are indices. -/
theorem Span.length_le {range : Span} (start : Index.InRange range.start)
    (stop : Index.InRange range.stop) : range.length ≤ maxCount := by
  obtain ⟨start, start'⟩ := start
  obtain ⟨stop, stop'⟩ := stop
  simp only [Index.least, Index.greatest] at start start' stop stop'
  rw [Span.length, maxCount]
  omega

/-- A request that moves along with the items still starts at an index. -/
theorem Request.proper_shift {r : Request} (proper : r.toFetch.Proper) (start delta : Int) :
    (r.shift start delta).toFetch.Proper := by
  obtain ⟨token, listId, target⟩ := r
  cases target with
  | range first count =>
    unfold shift
    dsimp only
    split
    · exact ⟨Index.inRange_add .., proper.2⟩
    · exact proper
  | page wanted d => exact proper

namespace Session

/-- What a session has asked for: what it has posted and what is outstanding. -/
def asked (s : Session) : List FetchRequest := s.posted ++ s.requests.pending.map Request.toFetch

/-- The lists of a session start at indices, and it asks for what can be written. -/
structure Asks (s : Session) : Prop where
  sound : s.core.Sound
  starts : AllStart s
  posted : ∀ f ∈ s.posted, f.Proper
  pending : ∀ r ∈ s.requests.pending, r.toFetch.Proper

variable {s : Session} {m : Move} {listId : ListId}

/-- Whatever a move does to a list, the requests that are then outstanding for it can be written. -/
theorem Asks.effect (asks : Asks s) {e : Entry} (effect : Effect s m listId e) :
    ∀ r ∈ e.requests, r.toFetch.Proper := by
  refine effect.requests ?_ ?_ ?_ ?_
  · exact fun r h => asks.pending r (RequestTable.mem_pendingFor.1 h).1
  · exact fun r start delta proper => Request.proper_shift proper start delta
  · intro l w i r range found loaded inRange planned target
    obtain ⟨start, stop, -⟩ :=
      IndexWindow.inRange_of_plan (asks.starts listId l w found loaded) inRange planned
    rw [Request.toFetch, target]
    exact ⟨start, Span.length_le start stop⟩
  · intro r page d target
    rw [Request.toFetch, target]
    trivial

/-- A session asks for what can be written after every move. -/
theorem Asks.step (asks : Asks s) (m : Move) : Asks (s.step m) := by
  have effects := effects_step asks.sound m
  have pending (r : Request) (h : r ∈ (s.step m).requests.pending) : r.toFetch.Proper :=
    asks.effect (effects.effect r.listId) r (RequestTable.mem_pendingFor.2 ⟨h, rfl⟩)
  refine ⟨effects.sound, asks.starts.step asks.sound m, ?_, pending⟩
  intro f h
  rcases mem_posted_step asks.sound.requests m h with earlier | ⟨r, noted, rfl⟩
  · exact asks.posted f earlier
  · exact pending r noted

/-- A new session asks for nothing. -/
theorem asks_create {policy : Policy} (created : create policy = .ok s) : Asks s := by
  have starts := allStart_create created
  have sound := sound_create created
  obtain ⟨policy', -, rfl⟩ := eq_of_create created
  exact ⟨sound, starts, by simp [Session.posted], by simp⟩

/-- Every reachable session asks for what can be written. -/
theorem asks_of_reachable (reachable : Reachable s) : Asks s := by
  induction reachable with
  | create created => exact asks_create created
  | step reachable m ih => exact ih.step m

/-- What a session has asked for can be written. -/
theorem proper_of_asked (reachable : Reachable s) {f : FetchRequest} (h : f ∈ s.asked) :
    f.Proper := by
  have asks := asks_of_reachable reachable
  rcases List.mem_append.1 h with posted | outstanding
  · exact asks.posted f posted
  · obtain ⟨r, noted, rfl⟩ := List.mem_map.1 outstanding
    exact asks.pending r noted

/-- What one side writes the other reads as the same message. -/
structure ReadsBack (s : Session) : Prop where
  /-- The first payload of a list is read for a list of its kind. -/
  listing : ∀ p : Listing, p.Proper → ∀ j, p.toJson.Arrives j → Listing.parse p.kind j = .ok p
  /-- An answer to a fetch is read for a list of its kind. -/
  answer : ∀ a : Answer, a.update.Proper → ∀ j, a.toJson.Arrives j →
    Update.parse a.kind j = .ok a.update
  /-- A batch is read for a list of either kind. -/
  batch : ∀ b : Batch, (Update.batch b).Proper → ∀ kind j, b.toJson.Arrives j →
    Update.parse kind j = .ok (.batch b)
  /-- So is every request of the session, as a request of its own kind. -/
  request : ∀ f ∈ s.asked, ∀ j, f.toJson.Arrives j → FetchRequest.ofJson? j = some f

/-- No message is altered or taken for another one on its way, whatever its items are. -/
theorem messages_read_back (reachable : Reachable s) : ReadsBack s where
  listing _ proper _ arrives := proper.parse_of_arrives arrives
  answer a proper _ arrives := a.parse_of_arrives proper arrives
  batch _ proper _ _ arrives := proper.parse_of_arrives nofun arrives
  request _ h _ arrives :=
    FetchRequest.Proper.ofJson?_of_arrives (proper_of_asked reachable h) arrives

/-- An item with the members by which batches and answers are told apart. -/
def disguised : Item := .obj [("correlationToken", .str "7"), ("operations", .arr [.null])]

/-- A list with this item. -/
def disguisedListing : Listing := .index ⟨"l", some 0, 0, some 0, none, [disguised]⟩

/-- An answer with this item. -/
def disguisedAnswer : Answer := .range ⟨"l", "101", none, 1, none, some 2, [disguised]⟩

/-- Edits that put this item in two places. -/
def disguisedBatch : Batch := ⟨"l", 1, [.set 0 disguised, .insertMany 1 [disguised, .null]]⟩

/-- The list is registered, and an index behind its item is accessed. -/
def disguisedRun : List Move :=
  [.register "dynamicIndexList" disguisedListing.toJson.settle, .ensureIndex "l" 1 inRange_one]

/-- All is read back as what it is, as is the request for what lies behind the item. -/
theorem messages_read_back_disguised :
    FetchRequest.range "101" "l" 1 10 ∈ (({} : Session).run disguisedRun).asked
    ∧ FetchRequest.ofJson? (FetchRequest.range "101" "l" 1 10).toJson.settle
      = some (.range "101" "l" 1 10)
    ∧ Listing.parse .index disguisedListing.toJson.settle = .ok disguisedListing
    ∧ Update.parse .index disguisedAnswer.toJson.settle = .ok disguisedAnswer.update
    ∧ ∀ kind, Update.parse kind disguisedBatch.toJson.settle = .ok (.batch disguisedBatch) := by
  have back := messages_read_back (reachable_default.run disguisedRun)
  have issued : FetchRequest.range "101" "l" 1 10 ∈ (({} : Session).run disguisedRun).asked := by
    decide
  refine ⟨issued, back.request _ issued _ .sorted, back.listing disguisedListing ?_ _ .sorted,
    back.answer disguisedAnswer ?_ _ .sorted, fun kind => back.batch _ ?_ kind _ .sorted⟩
  · exact ⟨⟨by decide, by decide, by decide⟩, by decide, rfl⟩
  · exact ⟨⟨⟨by decide, by decide, by decide⟩, by decide⟩, rfl⟩
  · refine ⟨⟨by decide, List.forall_mem_cons.2 ⟨⟨by decide, nofun⟩, ?_⟩⟩, rfl⟩
    exact List.forall_mem_singleton.2 ⟨by decide, nofun⟩

end Session

end ListSync
