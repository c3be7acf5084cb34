import ListSync.Proofs.Producer.Holding
import ListSync.Proofs.Session.Bounds
import ListSync.Proofs.Session.Feed
import ListSync.Proofs.Session.Tickets

/-!
# What a client shows of an index list

A `Picture` is what a session has loaded of an index list: where it begins, the items, and their
version. What a producer sends changes the picture in a way that depends on nothing else: a batch
edits the items, and an answer to a fetch adds what lies before and behind them, unless it does not
touch them (`Picture.after`). This is what a session does that waits for the answers that arrive
(`Session.Shows.receiveAll`).
-/

namespace ListSync

open Producer

/-- Bounds from the first index to the number of items are in range. -/
theorem inRange_of_known {lo hi : Option Int} {n : Nat} (minimum : lo = some 0)
    (maximum : hi = some (n : Int)) (room : (n : Int) ≤ Index.greatest) :
    (∀ i ∈ lo, Index.InRange i) ∧ ∀ i ∈ hi, Index.InRange i := by
  subst minimum maximum
  constructor
  · rintro i ⟨⟩
    exact inRange_of_room room (Int.le_refl 0) (by omega)
  · rintro i ⟨⟩
    exact inRange_of_room room (by omega) (Int.le_refl _)

/-! ## Pictures -/

/-- What is loaded of an index list. -/
structure Picture where
  start : Int
  items : List Item
  version : Version

namespace Picture

/-- The index behind the last loaded item. -/
def stop (p : Picture) : Int := p.start + p.items.length

/-- Whether fetched items touch or overlap the loaded ones. -/
def Touches (p : Picture) (a : RangeAnswer) : Prop :=
  a.start ≤ p.stop ∧ p.start ≤ a.start + a.items.length

instance (p : Picture) (a : RangeAnswer) : Decidable (p.Touches a) :=
  inferInstanceAs (Decidable (_ ∧ _))

/-- The picture with what fetched items add before and behind. -/
def joined (p : Picture) (a : RangeAnswer) : Picture :=
  { p with
    start := min a.start p.start
    items := a.items.take (p.start - a.start).toNat ++ p.items
      ++ a.items.drop (p.stop - a.start).toNat }

/-- The picture with edited items. -/
def edited (p : Picture) (b : Batch) : Picture :=
  { p with items := Edit.spliceAll b.edits p.items, version := b.version }

/-- The picture once a message has arrived. -/
def after (p : Picture) : ServerMessage → Picture
  | .update _ b => p.edited b
  | .fetched (.range a) _ => if p.Touches a then p.joined a else p
  | _ => p

/-- The items of a picture have positive indices. -/
structure Sane (p : Picture) : Prop where
  low : 0 ≤ p.start
  room : p.stop ≤ Index.greatest

/-- A window that is where a picture is stops where the picture does. -/
theorem Sane.stop_eq {p : Picture} (sane : p.Sane) {w : IndexWindow} (start : w.start = p.start)
    (count : w.count = p.items.length) : w.stop = p.stop := by
  have whole : w.start + w.count = p.stop := by rw [stop, start, count]
  rw [IndexWindow.stop_eq (.of_low (start ▸ sane.low) (whole ▸ sane.room)), whole]

/-- A message that a client which shows a picture can follow: a batch of the next version that fits
the items, or an answer whose items lie in the bounds that come with it. -/
inductive Takes (listId : ListId) (p : Picture) : ServerMessage → Prop
  | update {b : Batch} (own : b.listId = listId) (next : b.version = p.version + 1)
    (inRange : b.InRange) (fits : Edit.AllFit p.items b.edits) (sane : (p.edited b).Sane) :
    Takes listId p (.update .index b)
  | fetched {a : RangeAnswer} {n : Nat} (own : a.listId = listId) (version : a.version = none)
    (minimum : a.minimum = some 0) (maximum : a.maximum = some n) (low : 0 ≤ a.start)
    (within : a.start + a.items.length ≤ n) (room : (n : Int) ≤ Index.greatest)
    (reach : p.Touches a → p.stop ≤ n) (requestId : Option String) :
    Takes listId p (.fetched (.range a) requestId)

/-- A picture that takes in an answer ends where the later of both ends. -/
theorem stop_joined {p : Picture} {a : RangeAnswer} (touches : p.Touches a) :
    (p.joined a).stop = max p.stop (a.start + a.items.length) := by
  obtain ⟨front, back⟩ := touches
  simp only [stop, joined, List.length_append, List.length_take, List.length_drop] at *
  omega

/-- A picture stays sane as it takes in an answer that touches it. -/
theorem Sane.joined {p : Picture} {a : RangeAnswer} {n : Nat} (sane : p.Sane) (low : 0 ≤ a.start)
    (within : a.start + a.items.length ≤ n) (room : (n : Int) ≤ Index.greatest)
    (touches : p.Touches a) (reach : p.stop ≤ n) : (p.joined a).Sane := by
  refine ⟨Int.le_min.2 ⟨low, sane.low⟩, ?_⟩
  rw [stop_joined touches]
  omega

/-- A window that is where a picture is takes up items that touch it, and is then where the picture
is with them. -/
theorem joined_of_absorb {p : Picture} {a : RangeAnswer} {n : Nat} (sane : p.Sane)
    {w : IndexWindow} (start : w.start = p.start) (count : w.count = p.items.length)
    (low : 0 ≤ a.start) (within : a.start + a.items.length ≤ n) (room : (n : Int) ≤ Index.greatest)
    (touches : p.Touches a) (reach : p.stop ≤ n) (asked : Span) :
    ∃ plan next, w.absorb asked a.start a.items.length (some 0) (some n) = .ok (plan, next)
      ∧ a.items.take plan.front.stop ++ p.items ++ a.items.drop plan.back.start
        = (p.joined a).items
      ∧ next.start = (p.joined a).start ∧ next.count = (p.joined a).items.length := by
  have stop : w.start + w.count = p.stop := by rw [Picture.stop, start, count]
  obtain ⟨next, absorbed, begins, ends⟩ := IndexWindow.absorb_of_touching (start ▸ sane.low) low
    (stop ▸ reach) within room ⟨stop ▸ touches.1, start ▸ touches.2⟩ asked
  refine ⟨_, next, absorbed, ?_, begins.trans (congrArg (min a.start) start), ?_⟩
  · rw [IndexWindow.joinPlan, Picture.joined]
    dsimp only
    have behind (k : Nat) : a.items.drop (min a.items.length k) = a.items.drop k :=
      List.drop_eq_drop_iff.2 (by omega)
    rw [behind, ← start, ← stop]
  · have joined := stop_joined touches
    have whole : (p.joined a).stop = min a.start p.start + (p.joined a).items.length := rfl
    omega

end Picture

/-- The correlation token that a message carries. -/
def Producer.ServerMessage.tokens : ServerMessage → List CorrelationToken
  | .fetched (.range a) _ => [a.token]
  | _ => []

namespace Session

/-- Hand the payload of a message to a session. -/
def receive (s : Session) : ServerMessage → Session
  | .loaded p _ => (s.register p.kind.name p.toJson).1
  | .fetched a _ => (s.apply a.kind.name a.toJson).1
  | .update kind b => (s.apply kind.name b.toJson).1
  | _ => s

/-- A session shows a picture of an index list. -/
structure Shows (s : Session) (listId : ListId) (p : Picture) : Prop where
  sane : p.Sane
  loaded : ∃ l w, s.find? listId = some l ∧ l.window = .index w ∧ l.items = p.items
    ∧ w.start = p.start ∧ w.count = p.items.length
  version : s.version? listId = some p.version

/-- Ranges of an index list have been asked for under different tokens, and are outstanding. -/
structure Awaits (s : Session) (listId : ListId) (tokens : List CorrelationToken) : Prop where
  distinct : tokens.Nodup
  pending : ∀ token ∈ tokens, ∃ r ∈ (s.entry listId).requests, r.token = token ∧ r.kind = .index

variable {s : Session} {listId : ListId} {p : Picture} {tokens : List CorrelationToken}

/-! ## Batches -/

/-- No batch moves the start of the loaded items. -/
theorem Shows.start_of_update {b : Batch} (shows : s.Shows listId p) (sound : s.core.Sound)
    (own : b.listId = listId) (next : b.version = p.version + 1) (inRange : b.InRange) :
    ∃ l w, (s.apply Kind.index.name b.toJson).1.find? listId = some l ∧ l.window = .index w
      ∧ w.start = p.start := by
  subst own
  obtain ⟨l, w, found, loaded, -, start, -⟩ := shows.loaded
  have kind : l.kind = .index := by rw [LoadedList.kind, loaded, Window.kind]
  have accepted := edits?_of_next sound found shows.version next inRange
  rw [kind] at accepted
  have entry := entry_of_edits? (m := .apply Kind.index.name b.toJson) sound rfl accepted
  exact ⟨_, w.adjust (applyEdits l.items b.edits).2.delta, congrArg Entry.list? entry,
    by rw [loaded, editedWindow], start⟩

/-- A client that is pushed the next batch shows the edited picture, and waits for the same answers.
-/
theorem Shows.receive_update {b : Batch} (shows : s.Shows listId p) (sound : s.core.Sound)
    (awaits : s.Awaits listId tokens) (own : b.listId = listId) (next : b.version = p.version + 1)
    (inRange : b.InRange) (fits : Edit.AllFit p.items b.edits) (sane : (p.edited b).Sane) :
    (s.apply Kind.index.name b.toJson).1.Shows listId (p.edited b)
      ∧ (s.apply Kind.index.name b.toJson).1.Awaits listId tokens := by
  subst own
  obtain ⟨l, w, found, loaded, items, start, count⟩ := shows.loaded
  have kind : l.kind = .index := by rw [LoadedList.kind, loaded, Window.kind]
  have accepted := edits?_of_next sound found shows.version next inRange
  rw [kind] at accepted
  have version := (apply_fitting sound found shows.version next inRange (items ▸ fits)).version
  rw [kind] at version
  have entry := entry_of_edits? (m := .apply Kind.index.name b.toJson) sound rfl accepted
  have edited : (p.edited b).items = (applyEdits l.items b.edits).1 := by
    rw [applyEdits_items, items]
    rfl
  constructor
  · refine ⟨sane, ⟨_, w.adjust (applyEdits l.items b.edits).2.delta, congrArg Entry.list? entry, ?_,
      edited.symm, start, ?_⟩, version⟩
    · rw [loaded, editedWindow]
    · -- all items are counted, as there are no more of them than positive indices
      have room := sane.room
      have low := sane.low
      have before : (w.count : Int) = l.items.length := by rw [count, items]
      simp only [Picture.stop, IndexWindow.adjust, edited, delta_applyEdits, before, maxCount,
        Index.greatest] at room low ⊢
      omega
  · refine ⟨awaits.distinct, ?_⟩
    intro token owed
    -- a batch moves the ranges that are asked for, under the same tokens
    obtain ⟨r, pending, named, kind⟩ := awaits.pending token owed
    have requests := congrArg Entry.requests entry
    dsimp only at requests
    rw [loaded, editedRequests, RequestTable.pendingFor_shift, if_pos rfl] at requests
    refine ⟨r.shift w.stop (applyEdits l.items b.edits).2.delta, ?_, ?_, ?_⟩
    · show _ ∈ ((s.step (.apply Kind.index.name b.toJson)).entry b.listId).requests
      rw [requests]
      exact List.mem_map_of_mem pending
    · rw [Request.token_shift, named]
    · rw [Request.kind_shift, kind]

/-! ## Answers -/

/-- An answer to an outstanding request for a loaded list passes all checks. -/
theorem answered_of_pending {a : RangeAnswer} (sound : s.core.Sound) {l : LoadedList}
    {w : IndexWindow} (found : s.find? a.listId = some l) (loaded : l.window = .index w)
    (inRange : a.InRange) (version : a.version = none) {r : Request}
    (pending : r ∈ (s.entry a.listId).requests) (named : r.token = a.token) :
    Answered s ⟨Kind.index.name, a.toJson⟩ (.range a) l r := by
  obtain ⟨pending, own⟩ := RequestTable.mem_pendingFor.1 pending
  have read : readUpdate Kind.index.name a.toJson = .ok (.index, .range a) := by
    have parsed := Update.parse_toJson_range inRange (by simp [version])
    exact bind_eq_ok_iff.2 ⟨.index, rfl, bind_eq_ok_iff.2 ⟨_, parsed, rfl⟩⟩
  have listKind : l.kind = .index := by rw [LoadedList.kind, loaded, Window.kind]
  refine ⟨sound.unfinished found, listKind ▸ read, own ▸ found, pending, own.symm, ?_, ?_⟩
  · rw [Update.token?, named]
  · rw [Update.version, version]
    rfl

/-- So does the answer to a request that is awaited. -/
theorem Awaits.answered {a : RangeAnswer} (awaits : s.Awaits a.listId (a.token :: tokens))
    (sound : s.core.Sound) {l : LoadedList} {w : IndexWindow} (found : s.find? a.listId = some l)
    (loaded : l.window = .index w) (inRange : a.InRange) (version : a.version = none) :
    ∃ r, Answered s ⟨Kind.index.name, a.toJson⟩ (.range a) l r ∧ r.listId = a.listId
      ∧ ∃ asked, r.span? = some asked := by
  obtain ⟨r, pending, named, kind⟩ := awaits.pending a.token List.mem_cons_self
  exact ⟨r, answered_of_pending sound found loaded inRange version pending named,
    (RequestTable.mem_pendingFor.1 pending).2, Request.span?_of_kind kind⟩

theorem Awaits.perm {tokens' : List CorrelationToken} (awaits : s.Awaits listId tokens)
    (same : tokens.Perm tokens') : s.Awaits listId tokens' where
  distinct := same.nodup_iff.1 awaits.distinct
  pending token owed := awaits.pending token (same.mem_iff.2 owed)

/-- A client that has settled an answer waits for the others. -/
theorem Awaits.settled {next : Session} {r : Request} {list? : Option LoadedList}
    (awaits : s.Awaits listId (r.token :: tokens)) (own : r.listId = listId)
    (entry : next.entry r.listId = ⟨list?, (s.requests.pendingFor r.listId).erase r⟩) :
    next.Awaits listId tokens := by
  refine ⟨(List.nodup_cons.1 awaits.distinct).2, ?_⟩
  intro token owed
  obtain ⟨r', pending, named, kind⟩ := awaits.pending token (List.mem_cons_of_mem _ owed)
  refine ⟨r', ?_, named, kind⟩
  rw [← own, entry]
  refine (List.mem_erase_of_ne ?_).2 (own ▸ pending)
  rintro rfl
  exact (List.nodup_cons.1 awaits.distinct).1 (named ▸ owed)

/-- What comes of an answer without a version that passes all checks: it is taken up, or nothing is
left of it but that its request is settled. -/
theorem settled_of_answered {u : QueuedUpdate} {a : RangeAnswer} {l : LoadedList} {r : Request}
    {w : IndexWindow} {asked : Span} (sound : s.core.Sound)
    (answered : Answered s u (.range a) l r) (loaded : l.window = .index w)
    (range : r.span? = some asked) (version : a.version = none) :
    ∃ items w', (s.apply u.kindName u.payload).1.entry r.listId
        = ⟨some { l with items, window := .index w' }, (s.requests.pendingFor r.listId).erase r⟩
      ∧ (s.apply u.kindName u.payload).1.versions = s.versions
      ∧ ((∃ plan, (w.clear asked).absorb asked a.start a.items.length a.minimum a.maximum
            = .ok (plan, w')
          ∧ items = a.items.take plan.front.stop ++ l.items ++ a.items.drop plan.back.start
          ∧ ∃ applied, (s.apply u.kindName u.payload).2 = .ok applied)
        ∨ (∃ fault, (w.clear asked).absorb asked a.start a.items.length a.minimum a.maximum
            = .error fault) ∧ items = l.items ∧ w' = w.clear asked
          ∧ ∃ why, (s.apply u.kindName u.payload).2 = .error why) := by
  rcases apply_of_range sound.requests answered loaded range with
    ⟨plan, window, absorbed, core, answer⟩ | ⟨fault, absorbed, applied⟩
  · refine ⟨_, _, entry_of_settled sound answered core, ?_, .inl ⟨_, absorbed, rfl, _, answer⟩⟩
    have versions : (s.apply u.kindName u.payload).1.versions
        = acceptedVersions s.versions r.listId a.version := congrArg Core.versions core
    rw [versions, version, acceptedVersions]
  · have core := core_reject (s.settleKeeping r (.index (w.clear asked))) u.payload
      (.inconsistentRange r.listId fault.message)
    rw [applied]
    exact ⟨_, _, entry_of_settled sound answered core, congrArg Core.versions core,
      .inr ⟨⟨_, absorbed⟩, rfl, rfl, _, rfl⟩⟩

/-- A picture takes up an answer that touches it, and any other answer leaves it. -/
theorem Shows.receive_range {a : RangeAnswer} {n : Nat} (shows : s.Shows listId p)
    (sound : s.core.Sound) (awaits : s.Awaits listId (a.token :: tokens)) (own : a.listId = listId)
    (version : a.version = none) (minimum : a.minimum = some 0)
    (maximum : a.maximum = some (n : Int)) (low : 0 ≤ a.start)
    (within : a.start + a.items.length ≤ n) (room : (n : Int) ≤ Index.greatest)
    (reach : p.Touches a → p.stop ≤ n) :
    (s.apply Kind.index.name a.toJson).1.Shows listId (if p.Touches a then p.joined a else p)
      ∧ (s.apply Kind.index.name a.toJson).1.Awaits listId tokens := by
  subst own
  obtain ⟨l, w, found, loaded, items, start, count⟩ := shows.loaded
  obtain ⟨lo, hi⟩ := inRange_of_known minimum maximum room
  have inRange : a.InRange := ⟨inRange_of_room room low (by omega), lo, hi⟩
  obtain ⟨r, answered, own, asked, range⟩ := awaits.answered sound found loaded inRange version
  obtain ⟨items', w', entry, versions, outcome⟩ :=
    settled_of_answered sound answered loaded range version
  have named : r.token = a.token := Option.some.inj answered.token.symm
  refine ⟨?_, (named ▸ awaits).settled own entry⟩
  have current : (s.apply Kind.index.name a.toJson).1.version? a.listId = some p.version :=
    (congrArg (·.current? a.listId) versions).trans shows.version
  have found' := congrArg Entry.list? entry
  rw [own] at found'
  rw [minimum, maximum] at outcome
  -- a range apart from the picture is refused, unless it is empty and changes nothing
  by_cases touches : p.Touches a
  · obtain ⟨plan, next, absorbed, joined, begins, counts⟩ := Picture.joined_of_absorb
      (w := w.clear asked) shows.sane start count low within room touches (reach touches) asked
    rw [absorbed, items] at outcome
    obtain ⟨_, ⟨⟩, rfl, -⟩ | ⟨⟨fault, ⟨⟩⟩, -⟩ := outcome
    rw [if_pos touches]
    exact ⟨shows.sane.joined low within room touches (reach touches),
      ⟨_, _, found', rfl, joined, begins, counts⟩, current⟩
  · rw [if_neg touches]
    have stop : w.start + w.count = p.stop := by rw [Picture.stop, start, count]
    rcases outcome with ⟨plan, absorbed, rfl, -⟩ | ⟨-, rfl, rfl, -⟩
    · obtain ⟨none, begins, counts⟩ := IndexWindow.eq_of_absorb_apart (w := w.clear asked)
        (.of_low (start ▸ shows.sane.low) (stop ▸ shows.sane.room)) (.of_low low (by omega))
        (fun h => touches ⟨stop ▸ h.1, start ▸ h.2⟩) absorbed
      have empty : a.items = [] := List.length_eq_zero_iff.1 none
      refine ⟨shows.sane, ⟨_, _, found', rfl, ?_, begins.trans start, counts.trans count⟩, current⟩
      dsimp only
      rw [empty, items, List.take_nil, List.drop_nil, List.append_nil, List.nil_append]
    · exact ⟨shows.sane, ⟨_, _, found', rfl, items, start, count⟩, current⟩

/-! ## Messages -/

/-- A picture follows a message that it can take. -/
theorem Shows.receive {m : ServerMessage} (shows : s.Shows listId p) (sound : s.core.Sound)
    (awaits : s.Awaits listId (m.tokens ++ tokens)) (takes : p.Takes listId m) :
    (s.receive m).core.Sound ∧ (s.receive m).Shows listId (p.after m)
      ∧ (s.receive m).Awaits listId tokens := by
  cases takes with
  | update own next inRange fits sane =>
    exact ⟨(effects_step sound (.apply _ _)).sound,
      shows.receive_update sound awaits own next inRange fits sane⟩
  | fetched own version minimum maximum low within room reach requestId =>
    exact ⟨(effects_step sound (.apply _ _)).sound,
      shows.receive_range sound awaits own version minimum maximum low within room reach⟩

end Session

namespace Picture

/-- Messages that a client which shows a picture can follow one after the other. -/
def TakesAll (listId : ListId) (p : Picture) : List ServerMessage → Prop
  | [] => True
  | m :: ms => p.Takes listId m ∧ (p.after m).TakesAll listId ms

/-- A picture that takes some messages and then one more takes all of them. -/
theorem TakesAll.concat {listId : ListId} {p : Picture} {ms : List ServerMessage}
    (h : p.TakesAll listId ms) {m : ServerMessage}
    (takes : (ms.foldl after p).Takes listId m) : p.TakesAll listId (ms ++ [m]) := by
  induction ms generalizing p with
  | nil => exact ⟨takes, trivial⟩
  | cons m' ms ih => exact ⟨h.1, ih h.2 takes⟩

end Picture

namespace Session

variable {s : Session} {listId : ListId} {p : Picture} {tokens : List CorrelationToken}

/-- A picture follows messages that it can take one after the other. -/
theorem Shows.receiveAll {ms : List ServerMessage} (shows : s.Shows listId p)
    (sound : s.core.Sound) (awaits : s.Awaits listId (ms.flatMap ServerMessage.tokens ++ tokens))
    (takes : p.TakesAll listId ms) :
    (ms.foldl Session.receive s).core.Sound
      ∧ (ms.foldl Session.receive s).Shows listId (ms.foldl Picture.after p)
      ∧ (ms.foldl Session.receive s).Awaits listId tokens := by
  induction ms generalizing s p with
  | nil => exact ⟨sound, shows, awaits⟩
  | cons m ms ih =>
    rw [List.flatMap_cons, List.append_assoc] at awaits
    obtain ⟨sound', shows', awaits'⟩ := shows.receive sound awaits takes.1
    exact ih shows' sound' awaits' takes.2

end Session

end ListSync
