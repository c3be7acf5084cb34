import ListSync.Proofs.Session.Tickets

/-!
# What a session posts

A request that a session issues goes to the listener, if there is one, and waits in the outbox
otherwise. Updates post nothing (`post_apply`), a registration takes what waits for its list out of
the outbox (`post_install`), and an access puts its requests behind what is there, each as it is
noted as outstanding (`Posted`).
-/

namespace ListSync.Session

/-- Where requests go, and those that have gone there. -/
structure Post where
  listening : Bool
  heard : List FetchRequest
  outbox : List FetchRequest

/-- What a session has posted. -/
def post (s : Session) : Post := ⟨s.listening, s.heard, s.outbox⟩

/-! ## Updates and registrations -/

section

variable (s : Session) (listId : ListId)

/-- To record a change posts nothing. -/
@[simp]
theorem post_publish (d : Diff) : (s.publish listId d).post = s.post := by
  unfold publish
  split <;> rfl

/-- To report a rejection posts nothing. -/
@[simp]
theorem post_reject (payload : Json) (why : Rejection) : (s.reject payload why).post = s.post := by
  unfold reject
  split <;> rfl

/-- To note a version posts nothing. -/
@[simp]
theorem post_acceptVersion (v : Option Version) : (s.acceptVersion listId v).post = s.post := by
  cases v <;> rfl

/-- To apply a batch posts nothing, and takes nothing back. -/
theorem post_applyBatch (list : LoadedList) (b : Batch) :
    (s.applyBatch list b).1.post = s.post := by
  unfold applyBatch
  split
  · rfl
  · dsimp only
    split <;> exact (post_publish ..).trans (post_acceptVersion ..)

/-- To take in an answered range posts nothing, and takes nothing back. -/
theorem post_applyRange (list : LoadedList) (a : RangeAnswer) :
    (s.applyRange list a).1.post = s.post := by
  unfold applyRange
  split
  · rfl
  · dsimp only
    split
    · rfl
    · split
      · rfl
      · exact (post_publish ..).trans (post_acceptVersion ..)

/-- To take in an answered page posts nothing, and takes nothing back. -/
theorem post_applyPage (list : LoadedList) (a : PageAnswer) :
    (s.applyPage list a).1.post = s.post := by
  unfold applyPage
  split
  · rfl
  · dsimp only
    split
    · rfl
    · split
      · rfl
      · exact (post_publish ..).trans (post_acceptVersion ..)

/-- An update that was read posts nothing, whatever becomes of it. -/
theorem post_dispatch (kind : Kind) (u : Update) : (s.dispatch kind u).1.post = s.post := by
  unfold dispatch
  split
  · rfl
  · cases u with
    | batch b => exact s.post_applyBatch ..
    | range a => exact s.post_applyRange ..
    | page a => exact s.post_applyPage ..

/-- To take in an update posts nothing. -/
theorem post_apply (kindName : String) (payload : Json) :
    (s.apply kindName payload).1.post = s.post := by
  unfold apply
  split
  · rfl
  · split
    · exact post_reject ..
    · rename_i kind u _
      have dispatched := s.post_dispatch kind u
      split
      · rename_i next applied h
        rwa [h] at dispatched
      · rename_i next why h
        rw [h] at dispatched
        exact (post_reject ..).trans dispatched

/-- To leave an update in the inbox posts nothing. -/
@[simp]
theorem post_send (kindName : String) (payload : Json) :
    (s.send kindName payload).1.post = s.post := by
  unfold send
  split <;> rfl

/-- To leave the text of an update in the inbox posts nothing. -/
@[simp]
theorem post_sendText (kindName text : String) : (s.sendText kindName text).1.post = s.post := by
  unfold sendText
  split
  · rfl
  · exact post_send ..

/-- What waits for a list does not outlive a new registration of it. -/
theorem post_install (list : LoadedList) (version : Option Version) :
    (s.install list version).1.post
      = { s.post with outbox := s.outbox.filter (·.listId ≠ list.id) } := by
  unfold install installBy
  dsimp only
  split
  · exact post_publish ..
  · rfl

/-- Nothing waits once a session has finished. -/
theorem mem_outbox_finish {f : FetchRequest} (h : f ∈ s.finish.outbox) : f ∈ s.outbox := by
  unfold finish at h
  split at h
  · exact h
  · cases h

end

variable {s next last : Session} {m : Move} {u : QueuedUpdate} {listId : ListId} {kind : Kind}
  {rs rs' : List Request}

/-- A move that hands over an update posts nothing, and takes nothing back. -/
theorem post_of_update? (update : m.update? s = some u) : (s.step m).post = s.post := by
  cases m with
  | apply kindName payload => exact s.post_apply ..
  | deliver =>
    show s.deliver.post = s.post
    unfold deliver
    split
    · rfl
    · exact post_apply ..
  | _ => cases update

/-! ## Accesses -/

/-- Requests for a list were issued. A listener has received them, if there is one, and otherwise
they wait in the outbox. -/
structure Posted (s : Session) (listId : ListId) (kind : Kind) (rs : List Request)
    (next : Session) : Prop where
  listening : next.listening = s.listening
  sound : next.requests.Sound
  grows : RequestTable.Grows s.requests next.requests (rs.map Request.ticket)
  pending : next.requests.pending = s.requests.pending ++ rs
  heard : next.heard = s.heard ++ if s.listening then rs.map Request.toFetch else []
  outbox : next.outbox = s.outbox ++ if s.listening then [] else rs.map Request.toFetch
  own : ∀ r ∈ rs, r.listId = listId ∧ r.kind = kind

/-- Where nothing is issued, nothing is posted. -/
theorem Posted.refl (sound : s.requests.Sound) (listId : ListId) (kind : Kind) :
    Posted s listId kind [] s where
  listening := rfl
  sound := sound
  grows := .refl s.requests
  pending := (List.append_nil _).symm
  heard := by simp
  outbox := by simp
  own := by simp

/-- What is posted after other requests stands behind them, with the listener or in the outbox. -/
theorem Posted.trans (first : Posted s listId kind rs next)
    (rest : Posted next listId kind rs' last) : Posted s listId kind (rs ++ rs') last where
  listening := rest.listening.trans first.listening
  sound := rest.sound
  grows := List.map_append ▸ first.grows.trans rest.grows
  pending := rest.pending.trans (by rw [first.pending, List.append_assoc])
  heard := by
    rw [rest.heard, first.heard, first.listening, List.append_assoc, List.map_append]
    cases s.listening <;> rfl
  outbox := by
    rw [rest.outbox, first.outbox, first.listening, List.append_assoc, List.map_append]
    cases s.listening <;> rfl
  own := List.forall_mem_append.2 ⟨first.own, rest.own⟩

/-- What is posted is then outstanding for the list. -/
theorem Posted.pendingFor (posted : Posted s listId kind rs next) :
    next.requests.pendingFor listId = s.requests.pendingFor listId ++ rs := by
  have own : rs.filter (·.listId = listId) = rs :=
    List.filter_eq_self.2 fun r h => decide_eq_true (posted.own r h).1
  rw [RequestTable.pendingFor, posted.pending, List.filter_append, own, RequestTable.pendingFor]

/-- A request that is issued is posted once, under the token it was issued with. -/
theorem posted_issue (sound : s.requests.Sound) (listId : ListId) (target : Target) :
    Posted s listId (Request.kind ⟨s.requests.issue.2, listId, target⟩)
      [⟨s.requests.issue.2, listId, target⟩] (s.issue listId target).1 where
  listening := by
    unfold issue
    dsimp only
    split <;> rfl
  sound := sound_issue sound listId target
  grows := by
    rw [requests_issue]
    exact sound.grows listId target
  pending := by
    rw [requests_issue]
    exact sound.pending_add_issue rfl
  heard := by
    unfold issue
    cases s.listening <;> simp
  outbox := by
    unfold issue
    cases s.listening <;> simp
  own r h := by
    rw [List.mem_singleton.1 h]
    exact ⟨rfl, rfl⟩

/-- To mark a range as in flight posts nothing. -/
theorem posted_fetchRange (sound : s.requests.Sound) (listId : ListId) (range : Span) :
    ∃ rs, Posted s listId .index rs (s.fetchRange listId range).1 := by
  unfold fetchRange
  dsimp only
  split
  · rename_i w _
    obtain ⟨listening, table, grows, pending, heard, outbox, own⟩ := posted_issue
      (s := s.modifyWindow listId (.index (w.mark range))) sound listId
      (.range range.start range.length)
    exact ⟨_, listening, table, grows, pending, heard, outbox, own⟩
  · exact ⟨_, posted_issue sound listId (.range range.start range.length)⟩

/-- To ask for some ranges posts one request for each of them. -/
theorem posted_fetchRanges (sound : s.requests.Sound) (listId : ListId) (ranges : List Span) :
    ∃ rs, Posted s listId .index rs (s.fetchRanges listId ranges).1 := by
  induction ranges generalizing s with
  | nil => exact ⟨[], .refl sound ..⟩
  | cons range ranges ih =>
    obtain ⟨rs, first⟩ := posted_fetchRange sound listId range
    obtain ⟨rs', rest⟩ := ih first.sound
    exact ⟨rs ++ rs', first.trans rest⟩

/-- An access to an index posts requests for ranges of its list. -/
theorem posted_ensureIndex (sound : s.requests.Sound) (listId : ListId) (i : Int) :
    ∃ rs, Posted s listId .index rs (s.ensureIndex listId i).1 := by
  unfold ensureIndex
  split
  · exact ⟨[], .refl sound ..⟩
  · split
    · exact ⟨[], .refl sound ..⟩
    · split
      · exact ⟨[], .refl sound ..⟩
      · exact posted_fetchRanges sound ..

/-- To mark a page as in flight posts nothing. -/
theorem posted_fetchPage (sound : s.requests.Sound) (listId : ListId) (d : Direction) :
    ∃ rs, Posted s listId .token rs (s.fetchPage listId d).1 := by
  unfold fetchPage
  split
  · exact ⟨[], .refl sound ..⟩
  · split
    · exact ⟨[], .refl sound ..⟩
    · split
      · exact ⟨[], .refl sound ..⟩
      · rename_i w _
        split
        · exact ⟨[], .refl sound ..⟩
        · rename_i page _
          obtain ⟨listening, table, grows, pending, heard, outbox, own⟩ := posted_issue
            (s := s.modifyWindow listId (.token (w.mark page))) sound listId (.page page d)
          exact ⟨_, listening, table, grows, pending, heard, outbox, own⟩

/-- To fetch pages posts requests for pages of the one list. -/
theorem posted_fetchPages (sound : s.requests.Sound) (listId : ListId) (ds : List Direction) :
    ∃ rs, Posted s listId .token rs (s.fetchPages listId ds).1 := by
  induction ds generalizing s with
  | nil => exact ⟨[], .refl sound ..⟩
  | cons d ds ih =>
    obtain ⟨rs, first⟩ := posted_fetchPage sound listId d
    unfold fetchPages
    cases hf : s.fetchPage listId d with
    | mk next answer =>
      rw [hf] at first
      cases answer with
      | error why => exact ⟨rs, first⟩
      | ok token =>
        obtain ⟨rs', rest⟩ := ih first.sound
        dsimp only at rest ⊢
        cases hr : next.fetchPages listId ds with
        | mk last answer =>
          rw [hr] at rest
          cases answer with
          | error why => exact ⟨rs ++ rs', first.trans rest⟩
          | ok tokens => exact ⟨rs ++ rs', first.trans rest⟩

/-- An access to a position posts requests of the kind of its list. -/
theorem posted_ensurePosition (sound : s.requests.Sound) (listId : ListId) (position : Nat) :
    ∃ kind rs, Posted s listId kind rs (s.ensurePosition listId position).1 := by
  unfold ensurePosition
  split
  · exact ⟨.index, [], .refl sound ..⟩
  · split
    · exact ⟨.index, [], .refl sound ..⟩
    · split
      · exact ⟨.index, posted_ensureIndex sound ..⟩
      · exact ⟨.token, posted_fetchPages sound ..⟩

/-! ## Moves -/

/-- The requests that have gone to the listener or wait in the outbox. -/
def posted (s : Session) : List FetchRequest := s.heard ++ s.outbox

/-- Where some of the outbox goes and the rest stays, nothing new is posted. -/
theorem mem_posted_of_post {waiting : List FetchRequest} {f : FetchRequest}
    (post : next.post = { s.post with outbox := waiting }) (fewer : ∀ f ∈ waiting, f ∈ s.outbox)
    (h : f ∈ next.posted) : f ∈ s.posted := by
  have heard : next.heard = s.heard := congrArg Post.heard post
  have outbox : next.outbox = waiting := congrArg Post.outbox post
  rw [posted, heard, outbox, List.mem_append] at h
  exact List.mem_append.2 (h.imp_right (fewer f))

/-- Where the outbox is emptied, nothing new is posted. -/
theorem mem_posted_of_emptied {f : FetchRequest}
    (post : next.post = { s.post with outbox := [] }) (h : f ∈ next.posted) : f ∈ s.posted :=
  mem_posted_of_post post (fun _ h => absurd h List.not_mem_nil) h

/-- Where the post is the same, nothing new is posted. -/
theorem mem_posted_of_post_eq {f : FetchRequest} (same : next.post = s.post)
    (h : f ∈ next.posted) : f ∈ s.posted := mem_posted_of_post same (fun _ h => h) h

/-- A posted request was there before or is outstanding now. -/
theorem Posted.mem_posted (new : Posted s listId kind rs next) {f : FetchRequest}
    (h : f ∈ next.posted) : f ∈ s.posted ∨ ∃ r ∈ next.requests.pending, r.toFetch = f := by
  have fresh (h : f ∈ rs.map Request.toFetch) : ∃ r ∈ next.requests.pending, r.toFetch = f := by
    obtain ⟨r, mem, same⟩ := List.mem_map.1 h
    exact ⟨r, new.pending ▸ List.mem_append_right _ mem, same⟩
  rw [posted, new.heard, new.outbox] at h
  simp only [posted, List.mem_append] at h ⊢
  rcases h with (old | h) | (old | h)
  · exact .inl (.inl old)
  · split at h
    · exact .inr (fresh h)
    · cases h
  · exact .inl (.inr old)
  · split at h
    · cases h
    · exact .inr (fresh h)

/-- What a move posts is outstanding after it. -/
theorem mem_posted_step (sound : s.requests.Sound) (m : Move) {f : FetchRequest}
    (h : f ∈ (s.step m).posted) :
    f ∈ s.posted ∨ ∃ r ∈ (s.step m).requests.pending, r.toFetch = f := by
  cases m with
  | register kindName payload =>
    have registration := registration_register s kindName payload
    change f ∈ (s.register kindName payload).1.posted at h
    refine .inl ?_
    generalize s.register kindName payload = result at registration h
    obtain ⟨next, answer⟩ := result
    cases registration with
    | refused why => exact mem_posted_of_post_eq (post_reject ..) h
    | installed unfinished inRange read =>
      exact mem_posted_of_post (post_install ..) (fun _ => List.mem_of_mem_filter) h
  | apply kindName payload => exact .inl (mem_posted_of_post_eq (post_of_update? rfl) h)
  | deliver =>
    refine .inl ?_
    cases empty : s.inbox with
    | nil =>
      have same : s.step .deliver = s := deliver_of_nil empty
      rwa [same] at h
    | cons u rest =>
      refine mem_posted_of_post_eq (post_of_update? (u := u) ?_) h
      rw [Move.update?, empty, List.head?_cons]
  -- only the three accesses post anything, and what they post is outstanding
  | ensureIndex listId i inRange =>
    obtain ⟨rs, new⟩ := posted_ensureIndex sound listId i
    exact new.mem_posted h
  | ensurePosition listId position =>
    obtain ⟨kind, rs, new⟩ := posted_ensurePosition sound listId position
    exact new.mem_posted h
  | fetchPage listId d =>
    obtain ⟨rs, new⟩ := posted_fetchPage sound listId d
    exact new.mem_posted h
  | takeRequests => exact .inl (mem_posted_of_emptied rfl h)
  | takeHeard => exact .inl (List.mem_append_right _ h)
  | takeChanges | takeReports | listen | unlisten => exact .inl h
  | send kindName payload => exact .inl (mem_posted_of_post_eq (post_send ..) h)
  | sendText kindName text => exact .inl (mem_posted_of_post_eq (post_sendText ..) h)
  | finish =>
    change f ∈ s.finish.posted at h
    unfold finish at h
    split at h
    · exact .inl h
    · exact .inl (mem_posted_of_emptied rfl h)

end ListSync.Session
