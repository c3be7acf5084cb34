import ListSync.Proofs.Session.Effect

/-!
# Which requests a move issues and settles

A `Ticket` is the token of a request with the list it was issued for. `tallied_step` says what a
move does to the tickets of the outstanding requests: it adds those that it issues, under the next
tokens, and takes out those that it settles. A request is settled by an answer that is accepted or
does not fit, by a new registration of its list, and by the end of the session; nothing else settles
it (`Settles`).
-/

namespace ListSync

/-- A token and the list for which a request was issued under it. -/
structure Ticket where
  token : CorrelationToken
  listId : ListId
deriving DecidableEq

/-- The token and the list of a request. -/
def Request.ticket (r : Request) : Ticket := ⟨r.token, r.listId⟩

/-- The kind of list a request is for. -/
def Request.kind (r : Request) : Kind := r.toFetch.kind

/-- A request that asks for a range is one of an index list. -/
theorem Request.kind_of_span? {r : Request} {asked : Span} (h : r.span? = some asked) :
    r.kind = .index := by
  unfold span? at h
  unfold kind toFetch
  split at h
  · rfl
  · cases h

/-- A request of an index list asks for a range. -/
theorem Request.span?_of_kind {r : Request} (h : r.kind = .index) :
    ∃ asked, r.span? = some asked := by
  unfold kind toFetch at h
  unfold span?
  split at h
  · exact ⟨_, rfl⟩
  · cases h

/-- A request keeps its kind when the range that it asks for moves. -/
theorem Request.kind_shift (r : Request) (start delta : Int) :
    (r.shift start delta).kind = r.kind := by
  unfold kind shift
  cases target : r.target with
  | range first count =>
    dsimp only
    split <;> simp [toFetch, target, FetchRequest.kind]
  | page wanted d => rfl

/-- A request that asks for a page is one of a token list. -/
theorem Request.kind_of_page {r : Request} {asked : String} {d : Direction}
    (h : r.target = .page asked d) : r.kind = .token := by
  rw [kind, toFetch, h]
  rfl

/-- The tickets of the outstanding requests, oldest first. -/
def RequestTable.tickets (t : RequestTable) : List Ticket := t.pending.map Request.ticket

/-- An update is an answer to a fetch under a token. -/
def QueuedUpdate.Carries (u : QueuedUpdate) (token : CorrelationToken) : Prop :=
  u.payload.member? "operations" = none
    ∧ u.payload.member? "correlationToken" = some (.str token)

/-- An object with edits is read as a batch, and any other one as an answer. -/
theorem Update.operations_of_parse {kind : Kind} {payload : Json} {u : Update}
    (h : parse kind payload = .ok u) :
    payload.member? "operations" = none ↔ u.token? ≠ none := by
  unfold parse at h
  split at h
  · rename_i members
    split at h
    · rename_i edited
      obtain ⟨b, -, ⟨⟩⟩ := bind_eq_ok_iff.1 h
      obtain ⟨v, given⟩ := Option.isSome_iff_exists.1 edited
      simp [given, token?]
    · rename_i plain
      have none : Json.member? "operations" (.obj members) = none := by simpa using plain
      split at h
      · cases kind with
        | index =>
          obtain ⟨a, -, ⟨⟩⟩ := bind_eq_ok_iff.1 h
          simp [none, token?]
        | token =>
          obtain ⟨a, -, ⟨⟩⟩ := bind_eq_ok_iff.1 h
          simp [none, token?]
      · cases h
  · cases h

namespace RequestTable

variable {t : RequestTable}

/-- Requests keep their tickets when the ranges they ask for move. -/
theorem tickets_shift (t : RequestTable) (listId : ListId) (start delta : Int) :
    (t.shift listId start delta).tickets = t.tickets := by
  simp only [tickets, shift, List.map_map]
  refine List.map_congr_left ?_
  intro r _
  simp only [Function.comp]
  split
  · rw [Request.ticket, r.token_shift, r.listId_shift, Request.ticket]
  · rfl

/-- Settling a token takes the tickets under that token, and no others. -/
theorem mem_tickets_settle {token : CorrelationToken} {k : Ticket} :
    k ∈ (t.settle token).tickets ↔ k ∈ t.tickets ∧ k.token ≠ token := by
  simp only [tickets, settle, List.mem_map, List.mem_filter, decide_eq_true_eq]
  constructor
  · rintro ⟨r, ⟨mem, apart⟩, rfl⟩
    exact ⟨⟨r, mem, rfl⟩, apart⟩
  · rintro ⟨⟨r, mem, rfl⟩, apart⟩
    exact ⟨r, ⟨mem, apart⟩, rfl⟩

/-- Abandoning a list takes the tickets of that list, and no others. -/
theorem mem_tickets_abandon {listId : ListId} {k : Ticket} :
    k ∈ (t.abandon listId).tickets ↔ k ∈ t.tickets ∧ k.listId ≠ listId := by
  simp only [tickets, List.mem_map, mem_abandon]
  constructor
  · rintro ⟨r, ⟨mem, apart⟩, rfl⟩
    exact ⟨⟨r, mem, rfl⟩, apart⟩
  · rintro ⟨⟨r, mem, rfl⟩, apart⟩
    exact ⟨r, ⟨mem, apart⟩, rfl⟩

/-- A table has issued requests under the next tokens, and nothing else has happened. -/
structure Grows (t t' : RequestTable) (new : List Ticket) : Prop where
  counter : t'.counter = t.counter + new.length
  tokens : new.map (·.token) = (List.range' (t.counter + 1) new.length).map tokenText
  tickets : t'.tickets = t.tickets ++ new

/-- A table has grown by no request at all. -/
theorem Grows.refl (t : RequestTable) : Grows t t [] := ⟨rfl, rfl, (List.append_nil _).symm⟩

/-- Requests issued after others go on where the counter of those stopped. -/
theorem Grows.trans {t' t'' : RequestTable} {new new' : List Ticket} (h : Grows t t' new)
    (h' : Grows t' t'' new') : Grows t t'' (new ++ new') where
  counter := by rw [h'.counter, h.counter, List.length_append, Nat.add_assoc]
  tokens := by
    have next : t'.counter + 1 = t.counter + 1 + 1 * new.length := by
      rw [h.counter]
      omega
    rw [List.map_append, h.tokens, h'.tokens, next, ← List.map_append, List.range'_append,
      List.length_append]
  tickets := by rw [h'.tickets, h.tickets, List.append_assoc]

/-- A request that is issued is the only new one, under the next token. -/
theorem Sound.grows (sound : t.Sound) (listId : ListId) (target : Target) :
    Grows t (t.issue.1.add ⟨t.issue.2, listId, target⟩) [⟨t.issue.2, listId⟩] where
  counter := rfl
  tokens := rfl
  tickets := by
    have pending := sound.pending_add_issue
      (show (Request.mk t.issue.2 listId target).token = t.issue.2 from rfl)
    rw [RequestTable.tickets, pending, List.map_append]
    rfl

end RequestTable

namespace Session

open RequestTable

/-! ## Issuing -/

/-- The tickets of an access to a list, none if it was refused. -/
def ticketsFor (listId : ListId) (answer : Except Rejection (List CorrelationToken)) :
    List Ticket := (answer.toOption.getD []).map (⟨·, listId⟩)

/-- The tickets that a move issues. -/
def Move.issues (s : Session) : Move → List Ticket
  | .ensureIndex listId i _ => ticketsFor listId (s.ensureIndex listId i).2
  | .ensurePosition listId position => ticketsFor listId (s.ensurePosition listId position).2
  | .fetchPage listId d => ticketsFor listId ((s.fetchPage listId d).2.map Option.toList)
  | _ => []

/-- The tickets that are issued along a run, oldest first. -/
def issued (s : Session) : List Move → List Ticket
  | [] => []
  | m :: moves => m.issues s ++ (s.step m).issued moves

variable {s next : Session} {m : Move} {u : QueuedUpdate} {k : Ticket}

/-- The table after a request is issued holds it behind those before. -/
theorem requests_issue (s : Session) (listId : ListId) (target : Target) :
    (s.issue listId target).1.requests
      = s.requests.issue.1.add ⟨s.requests.issue.2, listId, target⟩ :=
  congrArg Core.requests (core_issue s listId target)

/-- Tokens stay ordered when a request is issued. -/
theorem sound_issue (sound : s.requests.Sound) (listId : ListId) (target : Target) :
    (s.issue listId target).1.requests.Sound := by
  rw [requests_issue]
  exact sound.add_issue rfl

/-- To issue a request adds its ticket, under the token that is answered. -/
theorem grows_issue (sound : s.requests.Sound) (listId : ListId) (target : Target) :
    Grows s.requests (s.issue listId target).1.requests
      [⟨(s.issue listId target).2, listId⟩] := by
  rw [requests_issue]
  exact sound.grows listId target

/-- To mark a range as in flight is no matter of the table. -/
theorem grows_fetchRange (sound : s.requests.Sound) (listId : ListId) (range : Span) :
    (s.fetchRange listId range).1.requests.Sound
      ∧ Grows s.requests (s.fetchRange listId range).1.requests
        [⟨(s.fetchRange listId range).2, listId⟩] := by
  unfold fetchRange
  dsimp only
  split
  · exact ⟨sound_issue (s := s.modifyWindow listId _) sound .., grows_issue (s :=
      s.modifyWindow listId _) sound ..⟩
  · exact ⟨sound_issue sound .., grows_issue sound ..⟩

/-- To ask for some ranges issues the tokens that are answered, in that order. -/
theorem grows_fetchRanges (sound : s.requests.Sound) (listId : ListId) (ranges : List Span) :
    Grows s.requests (s.fetchRanges listId ranges).1.requests
      ((s.fetchRanges listId ranges).2.map (⟨·, listId⟩)) := by
  induction ranges generalizing s with
  | nil => exact Grows.refl s.requests
  | cons range ranges ih =>
    obtain ⟨sound', first⟩ := grows_fetchRange sound listId range
    exact first.trans (ih sound')

/-- An access to an index issues the tokens that it answers. -/
theorem grows_ensureIndex (sound : s.requests.Sound) (listId : ListId) (i : Int) :
    Grows s.requests (s.ensureIndex listId i).1.requests
      (ticketsFor listId (s.ensureIndex listId i).2) := by
  unfold ensureIndex
  split
  · exact Grows.refl s.requests
  · split
    · exact Grows.refl s.requests
    · split
      · exact Grows.refl s.requests
      · exact grows_fetchRanges sound listId _

/-- To fetch the next page issues the token that is answered, if any is. -/
theorem grows_fetchPage (sound : s.requests.Sound) (listId : ListId) (d : Direction) :
    Grows s.requests (s.fetchPage listId d).1.requests
      (ticketsFor listId ((s.fetchPage listId d).2.map Option.toList)) := by
  unfold fetchPage
  split
  · exact Grows.refl s.requests
  · split
    · exact Grows.refl s.requests
    · split
      · exact Grows.refl s.requests
      · split
        · exact Grows.refl s.requests
        · exact grows_issue (s := s.modifyWindow listId _) sound listId _

/-- Pages of a list that is there are fetched without a failure on the way. -/
theorem grows_fetchPages {listId : ListId} {l : LoadedList} {w : TokenWindow}
    (sound : s.core.Sound) (unfinished : s.finished = false) (found : s.find? listId = some l)
    (loaded : l.window = .token w) (ds : List Direction) :
    ∃ tokens, (s.fetchPages listId ds).2 = .ok tokens
      ∧ Grows s.requests (s.fetchPages listId ds).1.requests (tokens.map (⟨·, listId⟩)) := by
  induction ds generalizing s l w with
  | nil => exact ⟨[], rfl, Grows.refl s.requests⟩
  | cons d ds ih =>
    have first := grows_fetchPage sound.requests listId d
    obtain ⟨w', rs, -, asked⟩ := asked_fetchPage sound found loaded d
    obtain ⟨tokens, answered, rest⟩ :=
      ih asked.sound (asked.finished.trans unfinished) (asked.found found) rfl
    have done : ∃ token, (s.fetchPage listId d).2 = .ok token := by
      unfold fetchPage
      rw [findKind_eq_ok_iff.2 ⟨found, by rw [LoadedList.kind, loaded, Window.kind]⟩]
      simp only [unfinished, Bool.false_eq_true, if_false, loaded]
      split <;> exact ⟨_, rfl⟩
    obtain ⟨token, done⟩ := done
    rw [done] at first
    refine ⟨token.toList ++ tokens, ?_, ?_⟩
    · unfold fetchPages
      rw [show s.fetchPage listId d = ((s.fetchPage listId d).1, .ok token) from Prod.ext rfl done]
      dsimp only
      rw [show Session.fetchPages _ listId ds = (_, Except.ok tokens) from Prod.ext rfl answered]
    · unfold fetchPages
      rw [show s.fetchPage listId d = ((s.fetchPage listId d).1, .ok token) from Prod.ext rfl done]
      dsimp only
      rw [show Session.fetchPages _ listId ds = (_, Except.ok tokens) from Prod.ext rfl answered,
        List.map_append]
      exact first.trans rest

/-- An access to a position issues the tokens that it answers. -/
theorem grows_ensurePosition (sound : s.core.Sound) (listId : ListId) (position : Nat) :
    Grows s.requests (s.ensurePosition listId position).1.requests
      (ticketsFor listId (s.ensurePosition listId position).2) := by
  unfold ensurePosition
  cases unfinished : s.finished with
  | true => exact Grows.refl s.requests
  | false =>
    simp only [Bool.false_eq_true, if_false]
    cases found : s.find? listId with
    | none => exact Grows.refl s.requests
    | some l =>
      cases loaded : l.window with
      | index w =>
        simp only [loaded]
        exact grows_ensureIndex sound.requests ..
      | token w =>
        simp only [loaded]
        obtain ⟨tokens, answered, grows⟩ := grows_fetchPages sound unfinished found loaded
          (s.policy.pagesAhead l.items.length position)
        rw [answered]
        exact grows

/-! ## Settling -/

/-- An answer to a request is accepted, or does not fit. -/
def Taken : Except Rejection Applied → Prop
  | .ok _ => True
  | .error why => why.Inconsistent

/-- A move settles the request with a ticket, if that is still outstanding. -/
inductive Settles (s : Session) (k : Ticket) : Move → Prop
  /-- An answer under its token is accepted, or does not fit. -/
  | answered {m : Move} {u : QueuedUpdate} (update : m.update? s = some u)
    (carried : u.Carries k.token) (taken : Taken (s.apply u.kindName u.payload).2) : Settles s k m
  /-- Its list is registered anew, as a list of either kind. -/
  | replaced {kindName : String} {payload : Json} {list : LoadedList} {version : Option Version}
    (unfinished : s.finished = false) (read : readList kindName payload = .ok (list, version))
    (own : list.id = k.listId) : Settles s k (.register kindName payload)
  /-- The session finishes. -/
  | finished (unfinished : s.finished = false) : Settles s k .finish

/-- A move issues its tickets under the next tokens, and settles nothing but what `Settles` names.
-/
structure Tallied (s : Session) (m : Move) (next : Session) : Prop where
  counter : next.requests.counter = s.requests.counter + (m.issues s).length
  tokens : (m.issues s).map (·.token)
    = (List.range' (s.requests.counter + 1) (m.issues s).length).map tokenText
  tickets : ∀ k, k ∈ next.requests.tickets ↔
    k ∈ s.requests.tickets ∧ ¬Settles s k m ∨ k ∈ m.issues s

/-- A move that settles nothing is tallied by what the table grows by. -/
theorem tallied_of_grows (grows : Grows s.requests next.requests (m.issues s))
    (keeps : ∀ k, ¬Settles s k m) : Tallied s m next where
  counter := grows.counter
  tokens := grows.tokens
  tickets k := by
    rw [grows.tickets, List.mem_append]
    exact or_congr_left (and_iff_left (keeps k)).symm

/-- A move that issues nothing is tallied by what it settles. -/
theorem tallied_of_settles (none : m.issues s = []) (counter : next.requests.counter
      = s.requests.counter)
    (tickets : ∀ k, k ∈ next.requests.tickets ↔ k ∈ s.requests.tickets ∧ ¬Settles s k m) :
    Tallied s m next where
  counter := by rw [none, counter, List.length_nil, Nat.add_zero]
  tokens := by rw [none]; rfl
  tickets k := by rw [tickets k, none, or_iff_left List.not_mem_nil]

/-- An answer carries the token of the request it answers, and no other. -/
theorem Answered.carries {answer : Update} {l : LoadedList} {r : Request}
    (h : Answered s u answer l r) (token : CorrelationToken) :
    u.Carries token ↔ token = r.token := by
  have named := h.readFrom.token_eq r.token h.token
  obtain ⟨kind, -, read⟩ := bind_eq_ok_iff.1 h.read
  obtain ⟨update, parsed, ⟨⟩⟩ := bind_eq_ok_iff.1 read
  have plain : u.payload.member? "operations" = none :=
    (Update.operations_of_parse parsed).2 (by simp [h.token])
  simp only [QueuedUpdate.Carries, plain, named, true_and, Option.some.injEq, Json.str.injEq]
  exact eq_comm

/-- An update that is taken for a batch names its operations. -/
theorem operations_of_edits? {e : LoadedList × Batch} (h : s.edits? u = some e) :
    u.payload.member? "operations" ≠ none := by
  obtain ⟨-, -, read, -⟩ := edits?_eq_some_iff.1 h
  obtain ⟨kind, -, read⟩ := bind_eq_ok_iff.1 read
  obtain ⟨update, parsed, ⟨⟩⟩ := bind_eq_ok_iff.1 read
  exact mt (Update.operations_of_parse parsed).1 (not_not.2 rfl)

/-- What an update settles, whatever comes of it. -/
theorem tickets_of_outcome {answer : Except Rejection Applied} (h : Outcome s u next answer) :
    next.requests.counter = s.requests.counter ∧
    ∀ k, k ∈ next.requests.tickets ↔
      k ∈ s.requests.tickets ∧ ¬(u.Carries k.token ∧ Taken answer) := by
  -- all but two of the ways take one request out of the table
  have settled {answer' : Update} {l : LoadedList} {r : Request}
      (requests : next.core.requests = s.requests.settle r.token)
      (answered : Answered s u answer' l r) (taken : Taken answer) :
      next.requests.counter = s.requests.counter ∧
      ∀ k, k ∈ next.requests.tickets ↔
        k ∈ s.requests.tickets ∧ ¬(u.Carries k.token ∧ Taken answer) := by
    rw [show next.requests = s.requests.settle r.token from requests]
    refine ⟨rfl, ?_⟩
    intro k
    rw [mem_tickets_settle, answered.carries, and_iff_left taken]
  cases h with
  | refused why plain unsettled =>
    have requests : (s.reject u.payload why).requests = s.requests :=
      congrArg Core.requests (core_reject ..)
    rw [requests]
    refine ⟨rfl, ?_⟩
    intro k
    exact (and_iff_left fun h => plain h.2).symm
  | @edited l b _ accepted core =>
    have edits := operations_of_edits? accepted
    have requests : next.requests = editedRequests s.requests b.listId l.window
        (applyEdits l.items b.edits).2.delta := congrArg Core.requests core
    rw [requests]
    have same : (editedRequests s.requests b.listId l.window
        (applyEdits l.items b.edits).2.delta).tickets = s.requests.tickets := by
      cases l.window with
      | index w => exact tickets_shift ..
      | token w => rfl
    refine ⟨?_, ?_⟩
    · cases l.window <;> rfl
    · intro k
      rw [same]
      exact (and_iff_left fun h => edits h.1.1).symm
  | merged answered loaded range absorbed core =>
    exact settled (congrArg Core.requests core) answered trivial
  | detached answered loaded range absorbed =>
    exact settled (congrArg Core.requests (core_reject ..)) answered trivial
  | joined answered loaded page core =>
    exact settled (congrArg Core.requests core) answered trivial
  | mispaged answered loaded page other =>
    exact settled (congrArg Core.requests (core_reject ..)) answered trivial

/-- A move that hands over an update settles the answered request, if there is one. -/
theorem tallied_of_update (update : m.update? s = some u) : Tallied s m (s.step m) := by
  have requests : (s.step m).requests = (s.apply u.kindName u.payload).1.requests :=
    congrArg Core.requests (core_of_update? update)
  obtain ⟨counter, tickets⟩ := tickets_of_outcome (outcome_apply s u)
  have settles (k : Ticket) :
      Settles s k m ↔ u.Carries k.token ∧ Taken (s.apply u.kindName u.payload).2 := by
    constructor
    · intro h
      cases h with
      | answered update' carried taken =>
        cases Option.some.inj (update.symm.trans update')
        exact ⟨carried, taken⟩
      | replaced _ _ _ => cases update
      | finished _ => cases update
    · rintro ⟨carried, taken⟩
      exact .answered update carried taken
  refine tallied_of_settles ?_ (requests ▸ counter) ?_
  · cases m <;> first | rfl | cases update
  · intro k
    rw [requests, tickets, settles]

/-- A move that leaves all lists and requests alone is tallied by no ticket at all. -/
theorem tallied_of_core_eq (core : next.core = s.core) (none : m.issues s = [])
    (keeps : ∀ k, ¬Settles s k m) : Tallied s m next := by
  have requests : next.requests = s.requests := congrArg Core.requests core
  refine tallied_of_settles none (by rw [requests]) ?_
  intro k
  rw [requests, and_iff_left (keeps k)]

/-- A registration settles what is outstanding for the list that it takes in. -/
theorem tallied_register (s : Session) (kindName : String) (payload : Json) :
    Tallied s (.register kindName payload) (s.register kindName payload).1 := by
  unfold register registerBy
  cases unfinished : s.finished with
  | true =>
    refine tallied_of_core_eq rfl rfl ?_
    intro k h
    cases h with
    | answered update _ _ => cases update
    | replaced open' _ _ => simp [unfinished] at open'
  | false =>
    simp only [Bool.false_eq_true, if_false]
    cases read : readList kindName payload with
    | error why =>
      refine tallied_of_core_eq (core_reject ..) rfl ?_
      intro k h
      cases h with
      | answered update _ _ => cases update
      | replaced _ read' _ => simp [read] at read'
    | ok listVersion =>
      obtain ⟨list, version⟩ := listVersion
      have requests : (s.install list version).1.requests = s.requests.abandon list.id :=
        congrArg Core.requests (core_install s list version)
      -- a registration settles exactly what is outstanding for the list that it replaces
      have settles (k : Ticket) :
          Settles s k (.register kindName payload) ↔ k.listId = list.id := by
        constructor
        · intro h
          cases h with
          | answered update _ _ => cases update
          | replaced _ read' own =>
            cases (Except.ok.inj (read.symm.trans read'))
            exact own.symm
        · intro own
          exact .replaced unfinished read own.symm
      show Tallied s _ (s.install list version).1
      refine tallied_of_settles rfl (by rw [requests]; rfl) ?_
      intro k
      rw [requests, settles]
      exact mem_tickets_abandon

/-- To finish a session settles all that is outstanding. -/
theorem tallied_finish (s : Session) : Tallied s .finish s.finish := by
  unfold finish
  cases unfinished : s.finished with
  | true =>
    refine tallied_of_core_eq rfl rfl ?_
    intro k h
    cases h with
    | answered update _ _ => cases update
    | finished open' => simp [unfinished] at open'
  | false =>
    simp only [Bool.false_eq_true, if_false]
    refine tallied_of_settles rfl rfl ?_
    intro k
    exact iff_of_false List.not_mem_nil fun h => h.2 (.finished unfinished)

/-- What a move does to the outstanding requests. -/
theorem tallied_step (sound : s.core.Sound) (m : Move) : Tallied s m (s.step m) := by
  cases update : m.update? s with
  | some u => exact tallied_of_update update
  | none =>
    -- without an update only a registration or the end of the session can settle anything
    have unanswered (k : Ticket) : Settles s k m →
        (∃ kindName payload, m = .register kindName payload) ∨ m = .finish := by
      intro h
      cases h with
      | answered given _ _ => simp [update] at given
      | replaced _ _ _ => exact .inl ⟨_, _, rfl⟩
      | finished _ => exact .inr rfl
    have keeps (other : ∀ kindName payload, m ≠ .register kindName payload) (last : m ≠ .finish)
        (k : Ticket) : ¬Settles s k m := fun h =>
      (unanswered k h).elim (fun ⟨kindName, payload, e⟩ => other kindName payload e) last
    cases m with
    | register kindName payload => exact tallied_register s kindName payload
    | finish => exact tallied_finish s
    | ensureIndex listId i inRange =>
      exact tallied_of_grows (grows_ensureIndex sound.requests listId i) (keeps nofun nofun)
    | ensurePosition listId position =>
      exact tallied_of_grows (grows_ensurePosition sound listId position) (keeps nofun nofun)
    | fetchPage listId d =>
      exact tallied_of_grows (grows_fetchPage sound.requests listId d) (keeps nofun nofun)
    | apply kindName payload => cases update
    | deliver =>
      have empty := List.head?_eq_none_iff.1 update
      exact tallied_of_core_eq (congrArg core (deliver_of_nil empty)) rfl (keeps nofun nofun)
    | send kindName payload => exact tallied_of_core_eq (core_send ..) rfl (keeps nofun nofun)
    | sendText kindName text => exact tallied_of_core_eq (core_sendText ..) rfl (keeps nofun nofun)
    | _ => exact tallied_of_core_eq rfl rfl (keeps nofun nofun)

end Session

end ListSync
