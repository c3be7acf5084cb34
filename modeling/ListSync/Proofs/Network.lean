import ListSync.Proofs.Producer.Service
import ListSync.Proofs.Session.Feed

/-!
# Clients in step with a producer

A `Network` is a service with the session of each client. A call changes a list, and each client
feeds the batches that the call pushes to it to its session. A client is in sync with a list when
its session holds just the items of the range that the service tracks for it, at the version of the
list.

A call keeps a client in sync exactly when its batch spares the range of the client: a deletion that
overruns the end of the list takes items out of the list, and is rebased for nobody. So clients stay
in sync all along some calls exactly when all batches spare their ranges (`staysInSync_iff`).
-/

namespace ListSync

open Producer

/-- A service and the session of each client. -/
structure Network where
  service : Service
  clients : ConnectionId → Session

/-- A call that changes a list. -/
structure Call where
  listId : ListId
  edits : List (Edit Item)
  inRange : ∀ e ∈ edits, e.InRange

namespace Network

/-! ## Calls -/

/-- The service after a call. -/
def changed (n : Network) (c : Call) : Service := (n.service.change c.listId c.edits).1

/-- The messages that wait for a client, none if its mailbox is closed. -/
def waitingFor (s : Service) (id : ConnectionId) : List ServerMessage :=
  (s.hub.desk id).waiting?.getD []

/-- The messages that a call pushes to a client. -/
def pushed (n : Network) (c : Call) (id : ConnectionId) : List ServerMessage :=
  (waitingFor (n.changed c) id).drop (waitingFor n.service id).length

/-- The network after a call, and after each client has fed to its session what was pushed to it. -/
def step (n : Network) (c : Call) : Network where
  service := n.changed c
  clients id := ((n.clients id).feed (n.pushed c id)).1

/-- How the session of a client answers the batches that a call pushes to it. -/
def answers (n : Network) (c : Call) (id : ConnectionId) : List (Except Rejection Applied) :=
  ((n.clients id).feed (n.pushed c id)).2

/-- A service and sessions that can come about. -/
structure Reachable (n : Network) : Prop where
  service : n.service.Reachable
  clients : ∀ id, (n.clients id).Reachable

/-! ## Clients in sync -/

/-- A client has subscribed to a list, its mailbox is open, and its session holds the items of the
range that the service tracks for it, at the version of the list. -/
structure Synced (n : Network) (listId : ListId) (id : ConnectionId) (list : FullList)
    (range : Holding) (client : LoadedList) : Prop where
  backing : n.service.catalog.find listId = .ok list
  subscribed : (listId, id) ∈ n.service.hub.subscriptions
  connected : (n.service.hub.mailboxes.get? id).isSome
  tracked : n.service.hub.holding? id listId = some range
  loaded : (n.clients id).find? listId = some client
  kind : client.kind = list.kind
  within : 0 ≤ range.start ∧ range.start ≤ range.stop ∧ range.stop ≤ list.items.length
  items : client.items = (list.items.take range.stop.toNat).drop range.start.toNat
  version : (n.clients id).version? listId = some list.version

/-- A client is in sync with a list. -/
def InSync (n : Network) (listId : ListId) (id : ConnectionId) : Prop :=
  ∃ list range client, n.Synced listId id list range client

/-- The session of a client accepts the batches that a call pushes to it, without a warning. -/
def Accepts (n : Network) (c : Call) (id : ConnectionId) : Prop :=
  ∀ answer ∈ n.answers c id, ∃ applied, answer = .ok applied ∧ applied.warnings = []

/-- Clients are in sync with a list before and after each call, and accept the batches for it. -/
def StaysInSync (n : Network) (listId : ListId) (ids : List ConnectionId) : List Call → Prop
  | [] => ∀ id ∈ ids, n.InSync listId id
  | c :: calls =>
    (∀ id ∈ ids, n.InSync listId id ∧ (c.listId = listId → n.Accepts c id))
      ∧ (n.step c).StaysInSync listId ids calls

/-- A condition holds for every call, in the network in which it happens. -/
def Throughout (C : Network → Call → Prop) (n : Network) : List Call → Prop
  | [] => True
  | c :: calls => C n c ∧ (n.step c).Throughout C calls

/-- There is a next version of a list, and its items fit into memory all through a batch for it. -/
def Affordable (listId : ListId) (n : Network) (c : Call) : Prop :=
  c.listId = listId → ∀ list, n.service.catalog.find listId = .ok list →
    list.version < maxCount ∧ Holding.Roomy list.items c.edits

/-- A batch for a list spares the range that a client holds of it. -/
def Spares (listId : ListId) (id : ConnectionId) (n : Network) (c : Call) : Prop :=
  c.listId = listId → ∀ list range, n.service.catalog.find listId = .ok list →
    n.service.hub.holding? id listId = some range → range.spares list.items c.edits

variable {n : Network} {c : Call} {listId : ListId} {id : ConnectionId} {list : FullList}
  {range : Holding} {client : LoadedList}

/-- The loaded items are those that the range holds of the list. -/
theorem Synced.holds (synced : n.Synced listId id list range client) :
    range.Holds list.items client.items :=
  Holding.holds_iff.2 ⟨synced.within.1, synced.within.2.1, synced.within.2.2, synced.items⟩

/-- What waits at the service for a client in sync are the updates that it has still to take. -/
theorem Synced.waiting (synced : n.Synced listId id list range client) :
    (n.service.hub.desk id).waiting? = some (waitingFor n.service id) := by
  obtain ⟨waiting, box⟩ := Option.isSome_iff_exists.1 synced.connected
  have box : (n.service.hub.desk id).waiting? = some waiting := box
  rw [waitingFor, box, Option.getD_some]

/-! ## Calls that do not touch a list -/

/-- A call that leaves a list, what is tracked of it, and what the session of a client knows of it
leaves the client in sync. -/
theorem Synced.of_alike {n' : Network} (synced : n.Synced listId id list range client)
    (backing : n'.service.catalog.find listId = n.service.catalog.find listId)
    (subscriptions : n'.service.hub.subscriptions = n.service.hub.subscriptions)
    (connected : (n'.service.hub.desk id).waiting?.isSome)
    (tracked : (n'.service.hub.desk id).holding? listId = (n.service.hub.desk id).holding? listId)
    (alike : (n.clients id).Alike (n'.clients id) listId) :
    n'.Synced listId id list range client where
  backing := backing.trans synced.backing
  subscribed := subscriptions ▸ synced.subscribed
  connected := connected
  tracked := tracked.trans synced.tracked
  loaded := alike.find?.trans synced.loaded
  kind := synced.kind
  within := synced.within
  items := synced.items
  version := alike.version?.trans synced.version

/-- What a call pushes to a client follows what has waited for it. -/
theorem pushed_of_waiting {waiting rest : List ServerMessage}
    (before : (n.service.hub.desk id).waiting? = some waiting)
    (after : ((n.changed c).hub.desk id).waiting? = some (waiting ++ rest)) :
    n.pushed c id = rest := by
  simp only [pushed, waitingFor, before, after, Option.getD_some, List.drop_left]

/-- A call without edits is refused, and leaves a client in sync. -/
theorem Synced.step_empty (synced : n.Synced listId id list range client) (empty : c.edits = []) :
    (n.step c).Synced listId id list range client ∧ n.Accepts c id := by
  have service : n.changed c = n.service := by
    rw [changed, empty]
    rfl
  have none : n.pushed c id = [] :=
    pushed_of_waiting synced.waiting (by rw [service, List.append_nil, synced.waiting])
  constructor
  · refine synced.of_alike ?_ ?_ ?_ ?_ ?_
    · rw [step, service]
    · rw [step, service]
    · rw [step, service]
      exact synced.connected
    · rw [step, service]
    · show (n.clients id).Alike ((n.clients id).feed (n.pushed c id)).1 listId
      rw [none]
      exact ⟨rfl, rfl⟩
  · intro answer answered
    rw [answers, none] at answered
    cases answered

/-- A call for another list leaves a client in sync. -/
theorem Synced.step_other (synced : n.Synced listId id list range client)
    (reachable : n.Reachable) (apart : listId ≠ c.listId) :
    (n.step c).Synced listId id list range client := by
  obtain ⟨tracked, kind, rest, after, only⟩ :=
    Service.desk_change_other reachable.service.sound c.edits synced.waiting
  have fed : n.pushed c id = rest := pushed_of_waiting synced.waiting after
  refine synced.of_alike (Service.find_change_other apart) Service.subscriptions_change ?_
    (tracked listId apart) ?_
  · exact Option.isSome_iff_exists.2 ⟨_, after⟩
  · show (n.clients id).Alike ((n.clients id).feed (n.pushed c id)).1 listId
    rw [fed]
    exact Session.feed_other (reachable.clients id).sound apart only

/-! ## Calls for the list -/

/-- What a call for its list does to the service of a client in sync. -/
theorem Synced.desk (synced : n.Synced listId id list range client) (reachable : n.Reachable)
    (own : c.listId = listId) (given : c.edits ≠ []) :
    (n.changed c).catalog.find listId = .ok (list.edited c.edits)
      ∧ (n.changed c).hub.holding? id listId
        = some (range.rebaseAll (Edit.survivors list.items c.edits)).1
      ∧ ((n.changed c).hub.desk id).waiting? = some (waitingFor n.service id
        ++ [.update list.kind ⟨listId, list.version + 1,
          (range.rebaseAll (Edit.survivors list.items c.edits)).2⟩]) := by
  subst own
  obtain ⟨tracked, after⟩ := Service.desk_change_of_holding reachable.service.sound synced.backing
    given synced.subscribed synced.tracked synced.waiting
  exact ⟨(Service.find_change synced.backing given c.listId).trans (if_pos rfl), tracked, after⟩

/-- A batch that spares the range of a client keeps it in sync, and is accepted without a warning.
-/
theorem Synced.step (synced : n.Synced listId id list range client) (reachable : n.Reachable)
    (own : c.listId = listId) (given : c.edits ≠ []) (version : list.version < maxCount)
    (room : Holding.Roomy list.items c.edits) (spared : range.spares list.items c.edits) :
    (n.step c).InSync listId id ∧ n.Accepts c id := by
  obtain ⟨backing, tracked, after⟩ := synced.desk reachable own given
  obtain ⟨items, holds, follows⟩ :=
    Holding.rebaseAll_holds c.edits synced.holds c.inRange room spared
  have fed := pushed_of_waiting synced.waiting after
  have fitted : Session.Fitted (n.clients id) client ⟨listId, list.version + 1, _⟩ :=
    Session.apply_fitting (reachable.clients id).sound synced.loaded synced.version rfl
      ⟨version, follows.inRange⟩ follows.fits
  obtain ⟨⟨diff, answer⟩, ⟨client', loaded, kind, client_items⟩, current⟩ := fitted
  rw [synced.kind] at answer loaded current kind
  -- what the client holds now is what the moved range holds of the edited list
  obtain ⟨start, ordered, stop, cut⟩ := Holding.holds_iff.1 holds
  constructor
  · refine ⟨list.edited c.edits, _, client', backing, ?_, ?_, tracked, ?_, kind,
      ⟨start, ordered, stop⟩, ?_, ?_⟩
    · show (listId, id) ∈ (n.changed c).hub.subscriptions
      rw [changed, Service.subscriptions_change]
      exact synced.subscribed
    · exact Option.isSome_iff_exists.2 ⟨_, after⟩
    · show ((n.clients id).feed (n.pushed c id)).1.find? listId = _
      rw [fed]
      exact loaded
    · exact client_items.trans (follows.items.trans cut)
    · show ((n.clients id).feed (n.pushed c id)).1.version? listId = _
      rw [fed]
      exact current
  · intro reply replied
    rw [answers, fed] at replied
    obtain rfl := List.mem_singleton.1 replied
    exact ⟨_, answer, rfl⟩

/-- A batch that does not spare the range of a client leaves the range reaching beyond the end of
the list. -/
theorem Synced.spared (synced : n.Synced listId id list range client) (reachable : n.Reachable)
    (own : c.listId = listId) (given : c.edits ≠ []) (room : Holding.Roomy list.items c.edits)
    (inSync : (n.step c).InSync listId id) : range.spares list.items c.edits := by
  obtain ⟨backing, tracked, -⟩ := synced.desk reachable own given
  -- no client is in sync by a range that reaches beyond the end of the list
  refine Holding.spares_of_within c.edits synced.holds c.inRange room ?_
  obtain ⟨list', range', client', synced'⟩ := inSync
  have same : list.edited c.edits = list' :=
    Except.ok.inj (backing.symm.trans synced'.backing)
  have moved := Option.some.inj (tracked.symm.trans synced'.tracked)
  have within := synced'.within.2.2
  rw [← same, ← moved] at within
  exact within

/-! ## All along some calls -/

/-- A network that is reached stays so over every call. -/
theorem Reachable.step (reachable : n.Reachable) (c : Call) : (n.step c).Reachable where
  service := reachable.service.step (.change c.listId c.edits)
  clients id := (reachable.clients id).feed (n.pushed c id)

/-- A call keeps a client in sync exactly when its batch spares the range of the client, which then
accepts the batch. -/
theorem InSync.step_iff (inSync : n.InSync listId id) (reachable : n.Reachable)
    (affordable : Affordable listId n c) :
    Spares listId id n c
      ↔ (n.step c).InSync listId id ∧ (c.listId = listId → n.Accepts c id) := by
  obtain ⟨list, range, client, synced⟩ := inSync
  -- only a call for the list that has edits changes anything
  by_cases own : c.listId = listId
  · obtain ⟨version, room⟩ := affordable own list synced.backing
    by_cases given : c.edits = []
    · obtain ⟨kept, accepted⟩ := synced.step_empty given
      constructor
      · intro _
        exact ⟨⟨_, _, _, kept⟩, fun _ => accepted⟩
      · intro _ _ list' range' _ _
        rw [given, Holding.spares]
    · constructor
      · intro spared
        obtain ⟨kept, accepted⟩ := synced.step reachable own given version room
          (spared own list range synced.backing synced.tracked)
        exact ⟨kept, fun _ => accepted⟩
      · rintro ⟨kept, -⟩ - list' range' backing tracked
        obtain rfl : list = list' := Except.ok.inj (synced.backing.symm.trans backing)
        obtain rfl : range = range' := Option.some.inj (synced.tracked.symm.trans tracked)
        exact synced.spared reachable own given room kept
  · constructor
    · intro _
      exact ⟨⟨_, _, _, synced.step_other reachable (Ne.symm own)⟩, fun h => absurd h own⟩
    · intro _ h
      exact absurd h own

/-- Clients stay in sync with a list all along some calls, and accept all batches for it without a
warning, exactly when every batch spares the ranges of all of them. -/
theorem staysInSync_iff (reachable : n.Reachable) {ids : List ConnectionId}
    (inSync : ∀ id ∈ ids, n.InSync listId id) {calls : List Call}
    (affordable : n.Throughout (Affordable listId) calls) :
    n.StaysInSync listId ids calls
      ↔ n.Throughout (fun n c => ∀ id ∈ ids, Spares listId id n c) calls := by
  -- by induction on the calls: each starts from clients in sync
  induction calls generalizing n with
  | nil => exact ⟨fun _ => trivial, fun _ => inSync⟩
  | cons c calls ih =>
    have here (id : ConnectionId) (h : id ∈ ids) := (inSync id h).step_iff reachable affordable.1
    constructor
    · rintro ⟨before, after⟩
      have kept : ∀ id ∈ ids, (n.step c).InSync listId id := by
        cases calls with
        | nil => exact after
        | cons c' calls =>
          intro id h
          exact (after.1 id h).1
      refine ⟨?_, (ih (reachable.step c) kept affordable.2).1 after⟩
      intro id h
      exact (here id h).2 ⟨kept id h, (before id h).2⟩
    · rintro ⟨spared, rest⟩
      have kept (id : ConnectionId) (h : id ∈ ids) := (here id h).1 (spared id h)
      have next : ∀ id ∈ ids, (n.step c).InSync listId id := by
        intro id h
        exact (kept id h).1
      refine ⟨?_, (ih (reachable.step c) next affordable.2).2 rest⟩
      intro id h
      exact ⟨inSync id h, (kept id h).2⟩

/-! ## A client that has loaded the start of a list -/

/-- A list of four letters. -/
def letters : FullList where
  id := "l"
  kind := .index
  version := 0
  items := ["a", "b", "c", "d"].map .str
  pageSize := 4
  pageSize_pos := by decide

/-- A token list of five letters, two on a page. -/
def pagedLetters : FullList where
  id := "t"
  kind := .token
  version := 0
  items := ["a", "b", "c", "d", "e"].map .str
  pageSize := 2
  pageSize_pos := by decide

/-- A service with one list. -/
def lettersService : Service where
  catalog := {
    lists := ({} : Table ListId FullList).insert "l" letters
    defaultPageSize := 4
    defaultPageSize_pos := by decide }

theorem reachable_lettersService : lettersService.Reachable :=
  .start none (show Catalog.ofSeeds [⟨"l", .index, 0, none, ["a", "b", "c", "d"].map .str⟩] 4
    = .ok lettersService.catalog from rfl)

/-- A service with one token list. -/
def pagedService : Service where
  catalog := {
    lists := ({} : Table ListId FullList).insert "t" pagedLetters
    defaultPageSize := 4
    defaultPageSize_pos := by decide }

theorem reachable_pagedService : pagedService.Reachable :=
  .start none (show Catalog.ofSeeds
    [⟨"t", .token, 0, some 2, ["a", "b", "c", "d", "e"].map .str⟩] 4
    = .ok pagedService.catalog from rfl)

/-- A client has loaded some of the letters from the first on, has registered them and has
subscribed to the list. -/
def follower (count : Nat) : Network where
  service := ((lettersService.step (.connect 0)).step
    (.message 0 (.load "l" { count } none))).step (.message 0 (.subscribe "l" none))
  clients _ := ({} : Session).run [.register "dynamicIndexList" (.obj [("listId", .str "l"),
    ("listVersion", Json.ofNat 0), ("startIndex", Json.ofInt 0),
    ("items", .arr (letters.items.take count))])]

/-- A client follows a service once it has loaded a range and subscribed. -/
theorem reachable_follower (count : Nat) : (follower count).Reachable where
  service := ((reachable_lettersService.step (.connect 0)).step
    (.message 0 (.load "l" { count } none))).step (.message 0 (.subscribe "l" none))
  clients _ := Session.reachable_default.run _

/-- The client is in sync once it has subscribed. -/
theorem synced_follower_two :
    (follower 2).Synced "l" 0 letters ⟨0, 2⟩
      ⟨"l", ["a", "b"].map .str, .index ⟨none, none, 0, 2, []⟩⟩ := by
  constructor <;> decide

/-- A call that takes out the letters from a position on, five of them if there were as many. -/
def cutFrom (i : Int) (inRange : Index.InRange i) : Call where
  listId := "l"
  edits := [.deleteMany i 5]
  inRange e h := by
    rw [List.mem_singleton.1 h]
    exact ⟨inRange, by rintro i n ⟨⟩; decide⟩

/-- A call that puts a letter between the first two and then takes out all behind the third one. -/
def putAndCut : Call where
  listId := "l"
  edits := [.insert 1 (.str "x"), .deleteMany 3 5]
  inRange := by decide

theorem backing_follower (count : Nat) :
    (follower count).service.catalog.find "l" = .ok letters := rfl

/-- A call is affordable for the letters if they fit into memory all through it. -/
theorem affordable_follower (count : Nat) {c : Call} (roomy : Holding.Roomy letters.items c.edits) :
    (follower count).Throughout (Affordable "l") [c] := by
  refine ⟨fun _ list found => ?_, trivial⟩
  rw [← Except.ok.inj ((backing_follower count).symm.trans found)]
  exact ⟨by decide, roomy⟩

/-- A client that has loaded the first two letters is told of the one that is put between them, and
stays in sync when all behind them are taken out. -/
theorem staysInSync_follower_two :
    (follower 2).StaysInSync "l" [0] [putAndCut]
    ∧ (follower 2).pushed putAndCut 0 = [.update .index ⟨"l", 1, [.insert 1 (.str "x")]⟩]
    ∧ ((((follower 2).step putAndCut).clients 0).find? "l").map (·.items)
      = some (["a", "x", "b"].map .str) := by
  have inSync : ∀ id ∈ [0], (follower 2).InSync "l" id := by
    intro id h
    rw [List.mem_singleton.1 h]
    exact ⟨_, _, _, synced_follower_two⟩
  have affordable := affordable_follower 2 (c := putAndCut) (by decide)
  refine ⟨(staysInSync_iff (reachable_follower 2) inSync affordable).2 ⟨?_, trivial⟩,
    by decide +kernel, by decide +kernel⟩
  intro id h _ list range found tracked
  rw [List.mem_singleton.1 h] at tracked
  rw [← Except.ok.inj ((backing_follower 2).symm.trans found),
    ← Option.some.inj (synced_follower_two.tracked.symm.trans tracked)]
  decide

/-- A client that has loaded all letters does not: the call succeeds, and what is pushed to the
client says nothing of the letters that are gone. -/
theorem lost_follower_four :
    (follower 4).Reachable ∧ (follower 4).InSync "l" 0
    ∧ (follower 4).Throughout (Affordable "l") [cutFrom 2 (by decide)]
    ∧ ((follower 4).service.change "l" (cutFrom 2 (by decide)).edits).2.toOption.isSome
    ∧ (follower 4).pushed (cutFrom 2 (by decide)) 0 = [.update .index ⟨"l", 1, []⟩]
    ∧ ¬(follower 4).StaysInSync "l" [0] [cutFrom 2 (by decide)] := by
  refine ⟨reachable_follower 4, ⟨letters, ⟨0, 4⟩, ⟨"l", ["a", "b", "c", "d"].map .str,
    .index ⟨none, none, 0, 4, []⟩⟩, by constructor <;> decide⟩, affordable_follower 4 (by decide),
    by decide, by decide, ?_⟩
  rintro ⟨-, after⟩
  obtain ⟨list, range, client, synced⟩ := after 0 (List.mem_singleton.2 rfl)
  have backing := synced.backing.symm.trans
    (show _ = .ok (letters.edited [.deleteMany 2 5]) from rfl)
  have tracked := synced.tracked.symm.trans (show _ = some ⟨0, 4⟩ from rfl)
  have within := synced.within.2.2
  rw [Except.ok.inj backing, Option.some.inj tracked] at within
  exact absurd within (by decide)

end Network

end ListSync
