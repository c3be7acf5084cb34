import ListSync.Proofs.Session.Refusal
import ListSync.Proofs.Session.Tickets

/-!
# Every token is settled at most once

Tokens count up, so a token that is no longer outstanding never is again (`Spent.run`), and an
answer under it is dropped (`Spent.drops`). `correlation_exact` puts this together for all runs:
tokens are distinct and go up, an answer is accepted only when a request of its list and kind waits
for it, and what has settled a request, be it an answer, a new registration or the end of the
session, leaves every later answer to it without effect.
-/

namespace ListSync.Session

open RequestTable

variable {s next : Session} {m : Move} {u : QueuedUpdate} {k : Ticket}

/-! ## All along a run -/

/-- A token was issued, and no request is outstanding under it. -/
structure Spent (s : Session) (token : CorrelationToken) : Prop where
  issued : ∃ n ≤ s.requests.counter, token = tokenText n
  gone : ∀ k ∈ s.requests.tickets, k.token ≠ token

/-- A token that a move issues writes a number which its counter passes. -/
theorem exists_number_of_issues (sound : s.core.Sound) (h : k ∈ m.issues s) :
    ∃ n, s.requests.counter < n ∧ n ≤ (s.step m).requests.counter ∧ k.token = tokenText n := by
  have tally := tallied_step sound m
  have token := List.mem_map_of_mem (f := Ticket.token) h
  rw [tally.tokens, List.mem_map] at token
  obtain ⟨n, range, token⟩ := token
  rw [List.mem_range'_1] at range
  rw [tally.counter]
  exact ⟨n, by omega, by omega, token.symm⟩

/-- A token of an outstanding request writes a number up to the counter. -/
theorem exists_number_of_mem (sound : s.core.Sound) (h : k ∈ s.requests.tickets) :
    ∃ n ≤ s.requests.counter, k.token = tokenText n := by
  obtain ⟨r, pending, rfl⟩ := List.mem_map.1 h
  have table : s.requests.Sound := sound.requests
  exact table.issued r pending

/-- A token is handed out only once, so a new one is another one than any before. -/
theorem token_ne_of_issues (sound : s.core.Sound) (h : k ∈ m.issues s) {n : Nat}
    (le : n ≤ s.requests.counter) : k.token ≠ tokenText n := by
  obtain ⟨n', above, -, token⟩ := exists_number_of_issues sound h
  rw [token]
  intro same
  have := tokenText_inj same
  omega

/-- The counter never goes down. -/
theorem counter_le_step (sound : s.core.Sound) (m : Move) :
    s.requests.counter ≤ (s.step m).requests.counter := by
  rw [(tallied_step sound m).counter]
  exact Nat.le_add_right ..

/-- A token that is spent stays spent. -/
theorem Spent.step {token : CorrelationToken} (h : Spent s token) (sound : s.core.Sound)
    (m : Move) : Spent (s.step m) token := by
  obtain ⟨n, le, rfl⟩ := h.issued
  refine ⟨⟨n, Nat.le_trans le (counter_le_step sound m), rfl⟩, ?_⟩
  intro k mem
  rcases ((tallied_step sound m).tickets k).1 mem with ⟨old, -⟩ | new
  · exact h.gone k old
  · exact token_ne_of_issues sound new le

/-- A token that is spent is so after every run. -/
theorem Spent.run {token : CorrelationToken} (h : Spent s token) (sound : s.core.Sound)
    (moves : List Move) : Spent (s.run moves) token := by
  induction moves generalizing s with
  | nil => exact h
  | cons m moves ih => exact ih (h.step sound m) (effects_step sound m).sound

/-- A request that is settled leaves its token spent. -/
theorem spent_of_settles (sound : s.core.Sound) (mem : k ∈ s.requests.tickets)
    (settles : Settles s k m) : Spent (s.step m) k.token := by
  obtain ⟨n, le, token⟩ := exists_number_of_mem sound mem
  refine ⟨⟨n, Nat.le_trans le (counter_le_step sound m), token⟩, ?_⟩
  intro k' mem'
  rcases ((tallied_step sound m).tickets k').1 mem' with ⟨old, kept⟩ | new
  · -- another request with the token would be the same one
    intro same
    obtain ⟨r, pending, rfl⟩ := List.mem_map.1 mem
    obtain ⟨r', pending', rfl⟩ := List.mem_map.1 old
    have table : s.requests.Sound := sound.requests
    rw [table.eq_of_token pending' pending same] at kept
    exact kept settles
  · rw [token]
    exact token_ne_of_issues sound new le

/-- A ticket is outstanding from its issue on until it is spent. -/
theorem pending_or_spent_run (sound : s.core.Sound) (moves : List Move)
    (h : k ∈ s.requests.tickets) :
    k ∈ (s.run moves).requests.tickets ∨ Spent (s.run moves) k.token := by
  induction moves generalizing s with
  | nil => exact .inl h
  | cons m moves ih =>
    have sound' := (effects_step sound m).sound
    by_cases settles : Settles s k m
    · exact .inr ((spent_of_settles sound h settles).run sound' moves)
    · exact ih sound' (((tallied_step sound m).tickets k).2 (.inl ⟨h, settles⟩))

/-- A token that was issued along a run is outstanding after it, or spent. -/
theorem pending_or_spent_of_issued (sound : s.core.Sound) (moves : List Move)
    (h : k ∈ s.issued moves) :
    k ∈ (s.run moves).requests.tickets ∨ Spent (s.run moves) k.token := by
  induction moves generalizing s with
  | nil => cases h
  | cons m moves ih =>
    have sound' := (effects_step sound m).sound
    rcases List.mem_append.1 h with new | later
    · exact pending_or_spent_run sound' moves (((tallied_step sound m).tickets k).2 (.inr new))
    · exact ih sound' later

/-- The tokens of a run are numbered one after the other. -/
theorem tokens_issued (sound : s.core.Sound) (moves : List Move) :
    (s.issued moves).map (·.token)
      = (List.range' (s.requests.counter + 1) (s.issued moves).length).map tokenText := by
  induction moves generalizing s with
  | nil => rfl
  | cons m moves ih =>
    have tally := tallied_step sound m
    have next : (s.step m).requests.counter + 1
        = s.requests.counter + 1 + 1 * (m.issues s).length := by
      rw [tally.counter]
      omega
    rw [issued, List.map_append, tally.tokens, ih (effects_step sound m).sound, next,
      ← List.map_append, List.range'_append, List.length_append]

/-- The tickets whose requests a move takes out of the table. -/
def Move.closes (s : Session) (m : Move) : List Ticket :=
  s.requests.tickets.filter (· ∉ (s.step m).requests.tickets)

/-- The tickets whose requests are taken out of the table along a run, in order. -/
def closed (s : Session) : List Move → List Ticket
  | [] => []
  | m :: moves => m.closes s ++ (s.step m).closed moves

/-- Nothing but what settles a request takes it out of the table. -/
theorem mem_closes (sound : s.core.Sound) :
    k ∈ m.closes s ↔ k ∈ s.requests.tickets ∧ Settles s k m := by
  have tally := (tallied_step sound m).tickets k
  simp only [Move.closes, List.mem_filter, decide_eq_true_eq, tally, not_or, not_and, not_not]
  refine and_congr_right fun mem => ⟨fun h => h.1 mem, fun h => ⟨fun _ => h, ?_⟩⟩
  intro new
  obtain ⟨n, le, token⟩ := exists_number_of_mem sound mem
  exact token_ne_of_issues sound new le token

/-- No request is taken out of the table later under a spent token. -/
theorem Spent.closed {token : CorrelationToken} (h : Spent s token) (sound : s.core.Sound)
    {moves : List Move} (mem : k ∈ s.closed moves) : k.token ≠ token := by
  induction moves generalizing s with
  | nil => cases mem
  | cons m moves ih =>
    rcases List.mem_append.1 mem with now | later
    · exact h.gone k (List.mem_of_mem_filter now)
    · exact ih (h.step sound m) (effects_step sound m).sound later

/-- No request is taken out of the table twice. -/
theorem nodup_closed (sound : s.core.Sound) (moves : List Move) :
    ((s.closed moves).map (·.token)).Nodup := by
  induction moves generalizing s with
  | nil => exact List.nodup_nil
  | cons m moves ih =>
    have sound' := (effects_step sound m).sound
    have table : s.requests.Sound := sound.requests
    rw [closed, List.map_append, List.nodup_append]
    refine ⟨?_, ih sound', ?_⟩
    · have tokens : s.requests.tickets.map (·.token) = s.requests.pending.map (·.token) := by
        rw [tickets, List.map_map]
        rfl
      exact (tokens ▸ table.distinct).sublist (List.filter_sublist.map _)
    · intro token now other later
      obtain ⟨k, first, rfl⟩ := List.mem_map.1 now
      obtain ⟨k', again, rfl⟩ := List.mem_map.1 later
      obtain ⟨mem, settles⟩ := (mem_closes sound).1 first
      exact ((spent_of_settles sound mem settles).closed sound' again).symm

/-! ## Answers that nobody waits for -/

/-- An update is refused, and nothing changes but that it may be reported. -/
def Drops (s : Session) (u : QueuedUpdate) : Prop :=
  ∃ why : Rejection, ¬why.Inconsistent ∧ s.apply u.kindName u.payload
    = ({ s with reports := s.reports ++ (why.report? u.payload).toList }, .error why)

/-- A request that an update answers is outstanding, for the list and the kind of list that the
update names. -/
def Awaited (s : Session) (u : QueuedUpdate) : Prop :=
  ∃ r ∈ s.outstanding r.listId, u.Carries r.token
    ∧ u.payload.member? "listId" = some (.str r.listId) ∧ Kind.parse u.kindName = .ok r.kind
    ∧ ∃ l, s.find? r.listId = some l ∧ l.kind = r.kind

/-- An answer to a request for its kind of list is awaited. -/
theorem Answered.awaited {answer : Update} {l : LoadedList} {r : Request}
    (h : Answered s u answer l r) (kind : l.kind = r.kind) : Awaited s u := by
  obtain ⟨own, parsed, read⟩ := bind_eq_ok_iff.1 h.read
  obtain ⟨_, -, ⟨⟩⟩ := bind_eq_ok_iff.1 read
  have mem : r ∈ s.outstanding r.listId :=
    (outstanding_perm ..).mem_iff.2 (mem_pendingFor.2 ⟨h.pending, rfl⟩)
  exact ⟨r, mem, (h.carries r.token).2 rfl, h.listId ▸ h.readFrom.listId_eq, kind ▸ parsed, l,
    h.found, kind⟩

/-- An update is dropped, or its edits are applied, or it answers an outstanding request. -/
theorem drops_or_settles (s : Session) (u : QueuedUpdate) :
    Drops s u ∨ (∃ l b, s.edits? u = some (l, b)) ∨ ∃ answer l r, Answered s u answer l r
      ∧ l.kind = r.kind ∧ Taken (s.apply u.kindName u.payload).2 := by
  have outcome := outcome_apply s u
  generalize hr : s.apply u.kindName u.payload = result at outcome ⊢
  obtain ⟨next, answer⟩ := result
  dsimp only at outcome ⊢
  cases outcome with
  | refused why plain _ => exact .inl ⟨why, plain, by rw [hr, reject_eq]⟩
  | edited accepted _ => exact .inr (.inl ⟨_, _, accepted⟩)
  | merged answered loaded range _ _ =>
    have kind := (congrArg Window.kind loaded).trans (Request.kind_of_span? range).symm
    exact .inr (.inr ⟨_, _, _, answered, kind, trivial⟩)
  | detached answered loaded range _ =>
    have kind := (congrArg Window.kind loaded).trans (Request.kind_of_span? range).symm
    exact .inr (.inr ⟨_, _, _, answered, kind, trivial⟩)
  | joined answered loaded page _ =>
    have kind := (congrArg Window.kind loaded).trans (Request.kind_of_page page).symm
    exact .inr (.inr ⟨_, _, _, answered, kind, trivial⟩)
  | mispaged answered loaded page _ =>
    have kind := (congrArg Window.kind loaded).trans (Request.kind_of_page page).symm
    exact .inr (.inr ⟨_, _, _, answered, kind, trivial⟩)

/-- An answer under a token that is spent is dropped. -/
theorem Spent.drops {token : CorrelationToken} (h : Spent s token) (carried : u.Carries token) :
    Drops s u := by
  rcases drops_or_settles s u with drops | ⟨l, b, edits⟩ | ⟨answer, l, r, answered, -⟩
  · exact drops
  · exact absurd carried.1 (operations_of_edits? edits)
  · -- the request would be outstanding under the token
    have same : token = r.token := (answered.carries token).1 carried
    have pending := List.mem_map_of_mem (f := Request.ticket) answered.pending
    exact absurd same.symm (h.gone _ pending)

/-- What is taken out of the table was in it at first, or was issued. -/
theorem pending_or_issued_of_closed (sound : s.core.Sound) {moves : List Move}
    (h : k ∈ s.closed moves) : k ∈ s.requests.tickets ∨ k ∈ s.issued moves := by
  induction moves generalizing s with
  | nil => cases h
  | cons m moves ih =>
    rcases List.mem_append.1 h with now | later
    · exact .inl (List.mem_of_mem_filter now)
    · rcases ih (effects_step sound m).sound later with pending | issued
      · rcases ((tallied_step sound m).tickets k).1 pending with ⟨old, -⟩ | new
        · exact .inl old
        · exact .inr (List.mem_append_left _ new)
      · exact .inr (List.mem_append_right _ issued)

/-- Tokens are the texts of numbers that go up. -/
def Ascending (tokens : List CorrelationToken) : Prop :=
  ∃ numbers : List Nat, numbers.Pairwise (· < ·) ∧ tokens = numbers.map tokenText

/-- Tokens that go up are distinct. -/
theorem Ascending.nodup {tokens : List CorrelationToken} (h : Ascending tokens) :
    tokens.Nodup := by
  obtain ⟨numbers, ascending, rfl⟩ := h
  refine List.Nodup.map (fun _ _ => tokenText_inj) (ascending.imp ?_)
  intro m n lt
  exact Nat.ne_of_lt lt

/-- Along a run tokens go up, answers are accepted only when a request waits for them, and each
token is settled at most once. -/
structure Correlated (s : Session) (moves : List Move) : Prop where
  ascending : Ascending ((s.issued moves).map (·.token))
  distinct : ((s.issued moves).map (·.token)).Nodup
  /-- An answer is accepted only for an outstanding request, of the list and the kind it names. -/
  awaited : ∀ (u : QueuedUpdate) (applied : Applied), u.payload.member? "operations" = none →
    ((s.run moves).apply u.kindName u.payload).2 = .ok applied → Awaited (s.run moves) u
  /-- Only issued requests are taken out of the table, and none of them twice. -/
  once : ((s.closed moves).map (·.token)).Nodup ∧ s.closed moves ⊆ s.issued moves
  /-- After an answer, a new registration or the end of the session has settled a request, each
  answer under its token is dropped, whatever has happened in between. -/
  spent : ∀ k ∈ s.issued moves, ∀ m, Settles (s.run moves) k m → ∀ (later : List Move)
    (u : QueuedUpdate), u.Carries k.token → Drops (((s.run moves).step m).run later) u

/-- Requests and answers correspond along every run of a session. -/
theorem correlation_exact {policy : Policy} (created : create policy = .ok s)
    (moves : List Move) : Correlated s moves := by
  have sound := sound_create created
  have sound' := ((Reachable.create created).run moves).sound
  have none : s.requests.tickets = [] := by
    obtain ⟨policy', -, rfl⟩ := eq_of_create created
    rfl
  have ascending : Ascending ((s.issued moves).map (·.token)) :=
    ⟨_, List.pairwise_lt_range', tokens_issued sound moves⟩
  refine ⟨ascending, ascending.nodup, ?_, ⟨nodup_closed sound moves, ?_⟩, ?_⟩
  · intro u applied plain accepted
    -- an accepted answer was not dropped, and is no batch, so a request was outstanding for it
    rcases drops_or_settles (s.run moves) u with
      ⟨why, -, refused⟩ | ⟨l, b, edits⟩ | ⟨answer, l, r, answered, kind, -⟩
    · rw [refused] at accepted
      cases accepted
    · exact absurd plain (operations_of_edits? edits)
    · exact answered.awaited kind
  · intro k closed
    exact (pending_or_issued_of_closed sound closed).resolve_left (none ▸ List.not_mem_nil)
  · intro k issued m settles later u carried
    -- the token is spent from the move on that settles it, or was so before
    have spent : Spent ((s.run moves).step m) k.token := by
      rcases pending_or_spent_of_issued sound moves issued with pending | spent
      · exact spent_of_settles sound' pending settles
      · exact spent.step sound' m
    exact (spent.run (effects_step sound' m).sound later).drops carried

/-- A list with an item, of which an index further on is accessed. -/
def askedOnce : List Move :=
  [.register "dynamicIndexList" (.obj [("listId", .str "l"), ("startIndex", Json.ofInt 0),
    ("items", .arr [.str "a"])]), .ensureIndex "l" 1 (by decide)]

/-- The answer to the access. -/
def firstAnswer : QueuedUpdate :=
  ⟨"dynamicIndexList", .obj [("listId", .str "l"), ("correlationToken", .str "101"),
    ("startIndex", Json.ofInt 1), ("items", .arr [.str "b"])]⟩

/-- The answer is accepted once, and dropped whenever it comes again. -/
theorem dropped_firstAnswer :
    create {} = .ok {} ∧ ({} : Session).issued askedOnce = [⟨"101", "l"⟩]
    ∧ Settles (({} : Session).run askedOnce) ⟨"101", "l"⟩
      (.apply firstAnswer.kindName firstAnswer.payload)
    ∧ Correlated {} askedOnce
    ∧ ∀ later : List Move, Drops (((({} : Session).run askedOnce).step
      (.apply firstAnswer.kindName firstAnswer.payload)).run later) firstAnswer := by
  have issued : ({} : Session).issued askedOnce = [⟨"101", "l"⟩] := by decide
  have carried : firstAnswer.Carries "101" := ⟨by decide, by decide⟩
  have accepted : ((({} : Session).run askedOnce).apply firstAnswer.kindName
      firstAnswer.payload).2 = .ok ⟨"l", .changes [.insert 1], []⟩ := by decide
  have settles : Settles (({} : Session).run askedOnce) ⟨"101", "l"⟩
      (.apply firstAnswer.kindName firstAnswer.payload) :=
    .answered rfl carried (accepted ▸ trivial)
  have correlated := correlation_exact (show create {} = .ok {} from rfl) askedOnce
  exact ⟨rfl, issued, settles, correlated, fun later =>
    correlated.spent _ (issued ▸ List.mem_singleton_self _) _ settles later firstAnswer carried⟩

end ListSync.Session
