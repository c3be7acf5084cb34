import ListSync.Proofs.Session.Posting

/-!
# Requests that wait to be sent

A request that waits in the outbox is a copy of the one that is noted as outstanding. Answers,
registrations and the end of a session take the outstanding one away, and then the copy stands for
nothing. A batch of edits moves the outstanding one, when that begins behind the loaded items, but
not the copy. So the host is handed what is outstanding all along a run exactly when no batch moves
a request that still waits (`outbox_always_iff`).
-/

namespace ListSync

/-- A request after a batch for a list with the given window. -/
def editedRequest (listId : ListId) (window : Window) (delta : Int) (r : Request) : Request :=
  match window with
  | .index w => if r.listId = listId then r.shift w.stop delta else r
  | .token _ => r

section

variable (listId : ListId) (window : Window) (delta : Int)

/-- A request keeps its token when a batch moves it along. -/
theorem token_editedRequest (r : Request) :
    (editedRequest listId window delta r).token = r.token := by
  unfold editedRequest
  split
  · split
    · exact r.token_shift ..
    · rfl
  · rfl

/-- A request that asks the same of the producer after a batch is the same. -/
theorem toFetch_editedRequest_iff (r : Request) :
    (editedRequest listId window delta r).toFetch = r.toFetch
      ↔ editedRequest listId window delta r = r := by
  refine ⟨?_, congrArg _⟩
  unfold editedRequest
  split
  · split
    · obtain ⟨token, own, target⟩ := r
      cases target with
      | range start count =>
        simp only [Request.shift]
        split
        · simp [Request.toFetch]
        · exact fun _ => rfl
      | page wanted d => exact fun _ => rfl
    · exact fun _ => rfl
  · exact fun _ => rfl

/-- A batch leaves each outstanding request under its token. -/
theorem find?_editedRequests (t : RequestTable) (token : CorrelationToken) :
    (Session.editedRequests t listId window delta).find? token
      = (t.find? token).map (editedRequest listId window delta) := by
  have kept (r : Request) : (editedRequest listId window delta r).token = r.token :=
    token_editedRequest ..
  cases window with
  | index w =>
    show ((t.pending.map (editedRequest listId (.index w) delta)).find? (·.token = token)) = _
    simp only [List.find?_map, Function.comp_def, kept]
    rfl
  | token w => exact Option.map_id'.symm

end

namespace Session

/-- What the host is handed from the outbox is what is outstanding under its token, if anything
is. -/
def OutboxLaw (s : Session) : Prop :=
  ∀ f ∈ s.takeRequests.2, ∀ r, s.requests.find? f.token = some r → r.toFetch = f

/-- A move hands a session no batch that it accepts and that moves a request that waits in the
outbox. -/
def SparesOutbox (s : Session) (m : Move) : Prop :=
  ∀ e ∈ m.edits? s, ∀ f ∈ s.outbox, ∀ r ∈ s.requests.find? f.token,
    editedRequest e.2.listId e.1.window (applyEdits e.1.items e.2.edits).2.delta r = r

instance (s : Session) (m : Move) : Decidable (SparesOutbox s m) :=
  inferInstanceAs (Decidable (∀ e ∈ m.edits? s, ∀ f ∈ s.outbox, ∀ r ∈ s.requests.find? f.token, _))

/-- What waits was issued, and asks for what is outstanding. -/
structure Waits (s : Session) : Prop where
  sound : s.core.Sound
  issued : ∀ f ∈ s.outbox, ∃ n ≤ s.requests.counter, f.token = tokenText n
  law : OutboxLaw s

variable {s next : Session} {m : Move} {listId : ListId} {kind : Kind} {rs : List Request}

/-- The law outlives whatever only takes requests away. -/
theorem Waits.of_subset (waits : Waits s) (sound : next.core.Sound)
    (outbox : ∀ f ∈ next.outbox, f ∈ s.outbox)
    (counter : s.requests.counter ≤ next.requests.counter)
    (pending : ∀ r ∈ next.requests.pending, r ∈ s.requests.pending) : Waits next where
  sound := sound
  issued f h := by
    obtain ⟨n, le, named⟩ := waits.issued f (outbox f h)
    exact ⟨n, Nat.le_trans le counter, named⟩
  law f h r found := by
    obtain ⟨mem, named⟩ := sound.requests.find?_eq_some_iff.1 found
    exact waits.law f (outbox f h) r
      (waits.sound.requests.find?_eq_some_iff.2 ⟨pending r mem, named⟩)

/-- The law outlives moves that change neither what waits nor what is outstanding. -/
theorem Waits.of_core_eq (waits : Waits s) (core : next.core = s.core)
    (outbox : ∀ f ∈ next.outbox, f ∈ s.outbox) : Waits next := by
  have requests : next.requests = s.requests := congrArg Core.requests core
  exact waits.of_subset (core ▸ waits.sound) outbox (Nat.le_of_eq (by rw [requests]))
    fun r h => requests ▸ h

/-- A request waits as it is noted as outstanding, and its token is not that of another one. -/
theorem Waits.posted (waits : Waits s) (sound : next.core.Sound)
    (posted : Posted s listId kind rs next) : Waits next := by
  have grown : next.requests.counter = s.requests.counter + rs.length := by
    rw [posted.grows.counter, List.length_map]
  -- requests that wait are earlier ones or new ones
  have either (f : FetchRequest) (h : f ∈ next.outbox) :
      f ∈ s.outbox ∨ ∃ r ∈ rs, r.toFetch = f := by
    rw [posted.outbox, List.mem_append] at h
    refine h.imp_right fun h => ?_
    split at h
    · cases h
    · exact List.mem_map.1 h
  have noted (r : Request) (h : r ∈ rs) : r ∈ next.requests.pending := by
    rw [posted.pending]
    exact List.mem_append_right _ h
  refine ⟨sound, ?_, ?_⟩
  · intro f h
    rcases either f h with old | ⟨r, new, rfl⟩
    · obtain ⟨n, le, named⟩ := waits.issued f old
      exact ⟨n, by omega, named⟩
    · rw [r.token_toFetch]
      exact sound.requests.issued r (noted r new)
  · intro f h r found
    obtain ⟨mem, named⟩ := sound.requests.find?_eq_some_iff.1 found
    rcases either f h with old | ⟨r', new, rfl⟩
    · rcases List.mem_append.1 (posted.pending ▸ mem) with mem | mem
      · exact waits.law f old r (waits.sound.requests.find?_eq_some_iff.2 ⟨mem, named⟩)
      · -- the token of a new request is beyond those that were handed out
        have ticket : r.ticket.token ∈ (rs.map Request.ticket).map (·.token) :=
          List.mem_map_of_mem (List.mem_map_of_mem mem)
        rw [posted.grows.tokens, List.length_map] at ticket
        obtain ⟨n, range, text⟩ := List.mem_map.1 ticket
        obtain ⟨n', le, text'⟩ := waits.issued f old
        have same : n = n' := tokenText_inj (text.trans (named.trans text'))
        have := (List.mem_range'_1.1 range).1
        omega
    · rw [r'.token_toFetch] at named
      rw [sound.requests.eq_of_token mem (noted r' new) named]

/-- All that comes of an update for the outstanding requests: a batch moves them, an answer settles
one. -/
theorem requests_of_outcome {u : QueuedUpdate} {answer : Except Rejection Applied}
    (h : Outcome s u next answer) :
    (∃ l b, s.edits? u = some (l, b) ∧ next.requests = editedRequests s.requests b.listId l.window
        (applyEdits l.items b.edits).2.delta)
      ∨ next.requests.counter = s.requests.counter
        ∧ ∀ r ∈ next.requests.pending, r ∈ s.requests.pending := by
  -- but for a batch, an update settles one request or none
  have settled {token : CorrelationToken}
      (requests : next.core.requests = s.requests.settle token) :
      next.requests.counter = s.requests.counter
        ∧ ∀ r ∈ next.requests.pending, r ∈ s.requests.pending := by
    rw [show next.requests = s.requests.settle token from requests]
    exact ⟨rfl, fun r h => List.mem_of_mem_filter h⟩
  cases h with
  | refused why plain unsettled =>
    have requests : (s.reject u.payload why).requests = s.requests :=
      congrArg Core.requests (core_reject ..)
    rw [requests]
    exact .inr ⟨rfl, fun r h => h⟩
  | edited accepted core => exact .inl ⟨_, _, accepted, congrArg Core.requests core⟩
  | merged answered loaded range absorbed core => exact .inr (settled (congrArg Core.requests core))
  | detached answered loaded range absorbed =>
    exact .inr (settled (congrArg Core.requests (core_reject ..)))
  | joined answered loaded page core => exact .inr (settled (congrArg Core.requests core))
  | mispaged answered loaded page other =>
    exact .inr (settled (congrArg Core.requests (core_reject ..)))

/-- The law outlives a batch exactly when that moves no request that waits. -/
theorem Waits.edited_iff (waits : Waits s) {b : Batch} {window : Window} {delta : Int}
    (outbox : next.outbox = s.outbox)
    (requests : next.requests = editedRequests s.requests b.listId window delta) :
    OutboxLaw next ↔ ∀ f ∈ s.outbox, ∀ r ∈ s.requests.find? f.token,
      editedRequest b.listId window delta r = r := by
  unfold OutboxLaw takeRequests
  rw [outbox]
  refine forall₂_congr fun f h => ?_
  rw [requests, find?_editedRequests]
  constructor
  · intro law r found
    rw [Option.mem_def] at found
    refine (toFetch_editedRequest_iff ..).1 ?_
    rw [law _ (by rw [found]; rfl), waits.law f h r found]
  · intro spared r' found
    obtain ⟨r, asked, rfl⟩ := Option.map_eq_some_iff.1 found
    rw [spared r (Option.mem_def.2 asked)]
    exact waits.law f h r asked

/-- What waits is still what is outstanding after an update that spares the outbox. -/
theorem Waits.update (waits : Waits s) (spared : SparesOutbox s m) {u : QueuedUpdate}
    (update : m.update? s = some u) : Waits (s.step m) := by
  have sound := (effects_step waits.sound m).sound
  have core := core_of_update? update
  have outbox : (s.step m).outbox = s.outbox := congrArg Post.outbox (post_of_update? update)
  have requests : (s.step m).requests = (s.apply u.kindName u.payload).1.requests :=
    congrArg Core.requests core
  rcases requests_of_outcome (outcome_apply s u) with ⟨l, b, accepted, moved⟩ | ⟨counter, pending⟩
  · have same : (s.step m).requests.counter = s.requests.counter := by
      rw [requests, moved]
      cases l.window <;> rfl
    refine ⟨sound, ?_, ?_⟩
    · rw [outbox, same]
      exact waits.issued
    · exact (waits.edited_iff outbox (requests.trans moved)).2
        (spared (l, b) (Move.edits?_of_update? update accepted))
  · rw [← requests] at counter pending
    exact waits.of_subset sound (fun f h => outbox ▸ h) (Nat.le_of_eq counter.symm) pending

/-- What waits is still what is outstanding after a registration. -/
theorem Waits.register (waits : Waits s) (kindName : String) (payload : Json)
    (sound : (s.register kindName payload).1.core.Sound) :
    Waits (s.register kindName payload).1 := by
  have registration := registration_register s kindName payload
  generalize s.register kindName payload = result at registration sound
  obtain ⟨next, answer⟩ := result
  cases registration with
  | refused why =>
    have outbox : (s.reject payload why).outbox = s.outbox :=
      congrArg Post.outbox (s.post_reject payload why)
    exact waits.of_core_eq (core_reject ..) fun f h => outbox ▸ h
  | @installed p list unfinished inRange read =>
    have outbox : (s.install list p.version).1.outbox = _ :=
      congrArg Post.outbox (s.post_install list p.version)
    have requests : (s.install list p.version).1.requests = s.requests.abandon list.id :=
      congrArg Core.requests (core_install s list p.version)
    refine waits.of_subset sound ?_ ?_ ?_
    · intro f h
      exact List.mem_of_mem_filter (outbox ▸ h)
    · show s.requests.counter ≤ (s.install list p.version).1.requests.counter
      rw [requests]
      exact Nat.le_refl _
    · intro r h
      exact ((s.requests.mem_abandon list.id r).1 (requests ▸ h)).1

/-- Nothing waits and nothing is outstanding once a session has finished. -/
theorem Waits.finish (waits : Waits s) (sound : s.finish.core.Sound) : Waits s.finish := by
  refine waits.of_subset sound (fun f h => mem_outbox_finish s h) ?_ ?_
  · unfold Session.finish
    split <;> exact Nat.le_refl _
  · intro r h
    unfold Session.finish at h
    split at h
    · exact h
    · cases h

/-- A move keeps the law, unless it is a batch that moves a request that waits. -/
theorem Waits.step (waits : Waits s) (spared : SparesOutbox s m) : Waits (s.step m) := by
  have sound := (effects_step waits.sound m).sound
  cases m with
  | register kindName payload => exact waits.register kindName payload sound
  | apply kindName payload => exact waits.update spared rfl
  | deliver =>
    cases empty : s.inbox with
    | nil =>
      show Waits s.deliver
      rwa [deliver_of_nil empty]
    | cons u rest => exact waits.update spared (by rw [Move.update?, empty, List.head?_cons])
  | ensureIndex listId i inRange =>
    obtain ⟨rs, posted⟩ := posted_ensureIndex waits.sound.requests listId i
    exact waits.posted sound posted
  | ensurePosition listId position =>
    obtain ⟨kind, rs, posted⟩ := posted_ensurePosition waits.sound.requests listId position
    exact waits.posted sound posted
  | fetchPage listId d =>
    obtain ⟨rs, posted⟩ := posted_fetchPage waits.sound.requests listId d
    exact waits.posted sound posted
  -- from here on nothing new is asked for, and the outbox only shrinks
  | takeRequests => exact waits.of_core_eq rfl fun f h => absurd h List.not_mem_nil
  | takeHeard => exact waits.of_core_eq rfl fun f h => h
  | takeChanges => exact waits.of_core_eq rfl fun f h => h
  | takeReports => exact waits.of_core_eq rfl fun f h => h
  | listen => exact waits.of_core_eq rfl fun f h => h
  | unlisten => exact waits.of_core_eq rfl fun f h => h
  | send kindName payload =>
    have outbox : (s.send kindName payload).1.outbox = s.outbox :=
      congrArg Post.outbox (s.post_send kindName payload)
    exact waits.of_core_eq (core_send ..) fun f h => outbox ▸ h
  | sendText kindName text =>
    have outbox : (s.sendText kindName text).1.outbox = s.outbox :=
      congrArg Post.outbox (s.post_sendText kindName text)
    exact waits.of_core_eq (core_sendText ..) fun f h => outbox ▸ h
  | finish => exact waits.finish sound

/-- A batch that moves a request that waits breaks the law. -/
theorem Waits.sparesOutbox (waits : Waits s) (law : OutboxLaw (s.step m)) : SparesOutbox s m := by
  rintro ⟨l, b⟩ edits
  obtain ⟨u, update, accepted⟩ := Option.bind_eq_some_iff.1 edits
  obtain ⟨-, -, -, version⟩ := edits?_eq_some_iff.1 accepted
  have requests : (s.step m).requests = _ := congrArg Core.requests (core_of_update? update)
  rw [apply_of_edits? accepted, (applyBatch_spec l version).1] at requests
  exact (waits.edited_iff (congrArg Post.outbox (post_of_update? update)) requests).1 law

/-- Nothing is outstanding in a new session, and nothing waits. -/
theorem waits_create {policy : Policy} (created : create policy = .ok s) : Waits s := by
  obtain ⟨policy', -, rfl⟩ := eq_of_create created
  exact ⟨sound_create created, nofun, nofun⟩

/-- All along a run of a session the host is handed what is outstanding exactly when no batch of the
run moves a request that still waits in the outbox. -/
theorem outbox_always_iff {policy : Policy} (created : create policy = .ok s) (moves : List Move) :
    s.Always OutboxLaw moves ↔ s.Throughout SparesOutbox moves :=
  always_iff_throughout (fun _ h => h.law) (fun _ _ h spared => h.step spared)
    (fun _ _ h law => h.sparesOutbox law) (waits_create created) moves

/-- A host registers a list with one item and wants the one behind it. Before the request is taken
from the outbox, the first item is edited. -/
def editWhileWaiting (edit : Edit Item) : List Move :=
  [.register "dynamicIndexList" (.obj [("listId", .str "l"), ("listVersion", Json.ofNat 0),
      ("startIndex", Json.ofInt 0), ("items", .arr [.str "a"])]),
    .ensureIndex "l" 1 inRange_one,
    .apply "dynamicIndexList" (.obj [("listId", .str "l"), ("listVersion", Json.ofNat 1),
      ("operations", .arr [edit.toJson])])]

/-- Where another item takes the place of the first one, the law holds all along. -/
theorem outbox_always_set :
    ({ policy := ⟨1, 0⟩ } : Session).Always OutboxLaw (editWhileWaiting (.set 0 (.str "x"))) :=
  (outbox_always_iff created_single _).2 (by decide)

/-- Where an item is put in front of the first one, the host is handed a request for index 1, and
what is outstanding under its token is a request for index 2. -/
theorem outbox_broken_insert :
    Reachable (({ policy := ⟨1, 0⟩ } : Session).run (editWhileWaiting (.insert 0 (.str "x"))))
    ∧ (({ policy := ⟨1, 0⟩ } : Session).run
        (editWhileWaiting (.insert 0 (.str "x")))).takeRequests.2 = [.range "101" "l" 1 1]
    ∧ (({ policy := ⟨1, 0⟩ } : Session).run
        (editWhileWaiting (.insert 0 (.str "x")))).requests.find? "101"
      = some ⟨"101", "l", .range 2 1⟩
    ∧ ¬OutboxLaw (({ policy := ⟨1, 0⟩ } : Session).run
        (editWhileWaiting (.insert 0 (.str "x")))) := by
  refine ⟨(Reachable.create created_single).run _, by decide, by decide, ?_⟩
  intro law
  have same := law (.range "101" "l" 1 1) (by decide) ⟨"101", "l", .range 2 1⟩ (by decide)
  exact absurd same (by decide)

end Session

end ListSync
