import ListSync.Producer.Service
import ListSync.Proofs.Payload
import ListSync.Proofs.Producer.Holding
import ListSync.Proofs.Producer.Publish

/-!
# Runs of a service

`Service.Move` lists what can happen to a service, and a service is reachable when a run of moves
leads to it from the lists of some seeds. In a reachable service every list is found under its own
name, and the sets of subscribers are sound (`Reachable.sound`).

`change_of_find` says what a change of a list does to the list, and `desk_change` what it does to
each connection. A change that is refused does nothing (`change_of_refused`).
-/

namespace ListSync.Producer

/-! ## Catalogs -/

namespace Catalog

/-- Every list is found under its own name. -/
def Named (c : Catalog) : Prop := ∀ listId l, c.lists.get? listId = some l → l.id = listId

/-- A catalog answers for a name exactly with the list that stands under it. -/
theorem find_eq_ok_iff {c : Catalog} {listId : ListId} {l : FullList} :
    c.find listId = .ok l ↔ c.lists.get? listId = some l := by
  unfold find
  cases c.lists.get? listId <;> simp

/-- A list that comes into a catalog stands under its own name. -/
theorem Named.insert {c : Catalog} (named : c.Named) (l : FullList) :
    Named { c with lists := c.lists.insert l.id l } := by
  intro listId l' found
  rw [Table.get?_insert] at found
  split at found
  · cases found
    rename_i own
    exact own.symm
  · exact named listId l' found

/-- All lists stand under their names once those of some seeds have come in. -/
theorem Named.foldlM_insert {c c' : Catalog} (named : c.Named) {seeds : List Seed}
    (made : seeds.foldlM Catalog.insert c = .ok c') : c'.Named := by
  induction seeds generalizing c with
  | nil =>
    cases made
    exact named
  | cons seed seeds ih =>
    rw [List.foldlM_cons] at made
    obtain ⟨next, inserted, made⟩ := bind_eq_ok_iff.1 made
    refine ih ?_ made
    unfold Catalog.insert at inserted
    split at inserted
    · cases inserted
    · cases inserted
      exact named.insert _

/-- All lists of a catalog that is made of seeds stand under their names. -/
theorem named_ofSeeds {seeds : List Seed} {size : Nat} {c : Catalog}
    (made : ofSeeds seeds size = .ok c) : c.Named :=
  Named.foldlM_insert (fun _ _ h => by cases h) made

end Catalog

/-- A list after some edits. -/
def FullList.edited (l : FullList) (edits : List (Edit Item)) : FullList :=
  { l with items := Edit.spliceAll edits l.items, version := l.version + 1 }

/-- A batch edits a list, counts its version up, and warns of the edits that do not fit. -/
theorem FullList.apply_eq (l : FullList) (edits : List (Edit Item)) :
    l.apply edits = (l.edited edits, ⟨l.id, l.version + 1, edits⟩,
      Edit.warningsFrom l.items 0 edits) := by
  rw [apply, edited, ← applyEdits_items, ← Edit.applyEdits_warnings]

/-- To rebase what a list has warned about neither is to rebase the edits that fit the list. -/
theorem Holding.rebase_warnings {α : Type} (range : Holding) (items : List α)
    (edits : List (Edit α)) :
    range.rebase edits ((Edit.warningsFrom items 0 edits).map (·.place))
      = range.rebaseAll (Edit.survivors items edits) := by
  rw [rebase, ← Edit.survivors_of_warnings items 0 edits]

namespace Service

/-! ## Moves -/

/-- What can happen to a service. -/
inductive Move where
  /-- A client connects and is given a name. -/
  | connect (id : ConnectionId)
  | disconnect (id : ConnectionId)
  /-- A connection sends a message. -/
  | message (id : ConnectionId) (m : ClientMessage)
  | change (listId : ListId) (edits : List (Edit Item))
  /-- A client takes the messages that wait for it. -/
  | drain (id : ConnectionId)
  /-- A client closes its mailbox. -/
  | close (id : ConnectionId)

/-- The service after a move. -/
def step (s : Service) : Move → Service
  | .connect id => s.withHub (·.registerAs id)
  | .disconnect id => s.withHub fun h => h.unregister id
  | .message id m => (s.answer id m).1
  | .change listId edits => (s.change listId edits).1
  | .drain id => s.withHub fun h => (h.drain id).1
  | .close id => s.withHub fun h => (h.close id).1

/-- A text that is read as a message is answered as this message. -/
theorem process_of_read {text : String} {m : ClientMessage}
    (read : ClientMessage.read? text = some m) (s : Service) (id : ConnectionId) :
    s.process id text = s.answer id m := by
  rw [process, read]

/-- That a connection sends a message is that the service processes any text that is read so. -/
theorem step_message_of_read {text : String} {m : ClientMessage}
    (read : ClientMessage.read? text = some m) (s : Service) (id : ConnectionId) :
    s.step (.message id m) = (s.process id text).1 := by
  rw [process_of_read read, step]

/-- A service that a run of moves leads to from the lists of some seeds. -/
inductive Reachable : Service → Prop
  | start {seeds : List Seed} {size : Nat} {catalog : Catalog} (secret : Option String)
    (made : Catalog.ofSeeds seeds size = .ok catalog) : Reachable { catalog, secret }
  | step {s : Service} (h : Reachable s) (m : Move) : Reachable (s.step m)

/-- Every list is found under its own name, and the sets of subscribers are sound. -/
structure Sound (s : Service) : Prop where
  named : s.catalog.Named
  hub : s.hub.Sound

variable {s : Service} {listId : ListId} {edits : List (Edit Item)}

/-! ## Changes -/

/-- What edits make of a catalog. -/
theorem apply_of_find {list : FullList} (found : s.catalog.find listId = .ok list) :
    s.catalog.apply listId edits
      = .ok ({ s.catalog with lists := s.catalog.lists.insert listId (list.edited edits) },
        ⟨list.id, list.version + 1, edits⟩, Edit.warningsFrom list.items 0 edits) := by
  unfold Catalog.apply
  rw [found]
  show Except.ok ({ s.catalog with lists := s.catalog.lists.insert listId (list.apply edits).1 },
    (list.apply edits).2.1, (list.apply edits).2.2) = _
  rw [FullList.apply_eq]

/-- What a change of a list does, and what is answered. -/
theorem change_eq_of_find {list : FullList} (found : s.catalog.find listId = .ok list)
    (some : edits ≠ []) :
    s.change listId edits =
      ({ s with
        catalog.lists := s.catalog.lists.insert listId (list.edited edits)
        hub := (s.hub.publish list.kind ⟨list.id, list.version + 1, edits⟩
          ((Edit.warningsFrom list.items 0 edits).map (·.place))).1 },
        .ok ⟨listId, list.version + 1, Edit.warningsFrom list.items 0 edits,
          (s.hub.publish list.kind ⟨list.id, list.version + 1, edits⟩
            ((Edit.warningsFrom list.items 0 edits).map (·.place))).2⟩) := by
  have given : edits.isEmpty = false := by simpa using some
  unfold change
  rw [given, found]
  simp only [apply_of_find found, Bool.false_eq_true, if_false]

/-- What a change of a list does. -/
theorem change_of_find {list : FullList} (found : s.catalog.find listId = .ok list)
    (some : edits ≠ []) :
    (s.change listId edits).1 =
      { s with
        catalog.lists := s.catalog.lists.insert listId (list.edited edits)
        hub := (s.hub.publish list.kind ⟨list.id, list.version + 1, edits⟩
          ((Edit.warningsFrom list.items 0 edits).map (·.place))).1 } :=
  congrArg Prod.fst (change_eq_of_find found some)

/-- What changes is a list, and there are edits that change it. -/
theorem find_of_changed {changed : Changed} (done : (s.change listId edits).2 = .ok changed) :
    edits ≠ [] ∧ ∃ list, s.catalog.find listId = .ok list := by
  unfold change at done
  split at done
  · cases done
  · rename_i given
    split at done
    · cases done
    · rename_i list found
      exact ⟨by simpa using given, list, found⟩

/-- A change that is refused does nothing. -/
theorem change_of_refused {failure : Failure}
    (refused : (s.change listId edits).2 = .error failure) :
    (s.change listId edits).1 = s := by
  unfold change at refused ⊢
  split
  · rfl
  · rename_i given
    rw [if_neg given] at refused
    split
    · rfl
    · rename_i list found
      rw [found] at refused
      split
      · rfl
      · rename_i applied
        simp only [applied] at refused
        cases refused

/-- All lists stand under their names after a change. -/
theorem named_change (sound : s.Sound) {list : FullList}
    (found : s.catalog.find listId = .ok list) (some : edits ≠ []) :
    (s.change listId edits).1.catalog.Named := by
  have own : (list.edited edits).id = listId := sound.named listId list
    (Catalog.find_eq_ok_iff.1 found)
  have named := sound.named.insert (list.edited edits)
  rw [change_of_find found some]
  rwa [own] at named

/-- What is found under each name after a change of a list. -/
theorem find_change {list : FullList} (found : s.catalog.find listId = .ok list)
    (some : edits ≠ []) (other : ListId) :
    (s.change listId edits).1.catalog.find other
      = if other = listId then .ok (list.edited edits) else s.catalog.find other := by
  rw [change_of_find found some, Catalog.find, Table.get?_insert]
  by_cases own : other = listId
  · rw [if_pos own, if_pos own]
  · rw [if_neg own, if_neg own, Catalog.find]

/-- A change keeps who is there and who has subscribed. -/
theorem stays_change : s.hub.Stays (s.change listId edits).1.hub := by
  cases failed : (s.change listId edits).2 with
  | error failure =>
    rw [change_of_refused failed]
    exact .refl _
  | ok changed =>
    obtain ⟨some, list, found⟩ := find_of_changed failed
    rw [change_of_find found some]
    exact Hub.stays_publish ..

/-- A change keeps all subscriptions. -/
theorem subscriptions_change :
    (s.change listId edits).1.hub.subscriptions = s.hub.subscriptions := stays_change.subscriptions

/-- What a change of a list does to each connection. -/
theorem desk_change (sound : s.Sound) {list : FullList}
    (found : s.catalog.find listId = .ok list) (some : edits ≠ []) (id : ConnectionId) :
    (s.change listId edits).1.hub.desk id
      = if (listId, id) ∈ s.hub.subscriptions then
          (s.hub.desk id).push list.kind ⟨listId, list.version + 1, edits⟩
            ((Edit.warningsFrom list.items 0 edits).map (·.place))
        else s.hub.desk id := by
  have own : list.id = listId := sound.named listId list (Catalog.find_eq_ok_iff.1 found)
  rw [change_of_find found some, own]
  exact Hub.desk_publish _ _ _ _ sound.hub

/-- A subscriber that holds a range of a list is pushed what is left of a change once it is rebased
for the range. -/
theorem desk_change_of_holding (sound : s.Sound) {list : FullList}
    (found : s.catalog.find listId = .ok list) (given : edits ≠ []) {id : ConnectionId}
    (subscribed : (listId, id) ∈ s.hub.subscriptions) {range : Holding}
    (tracked : s.hub.holding? id listId = some range) {waiting : List ServerMessage}
    (box : (s.hub.desk id).waiting? = some waiting) :
    (s.change listId edits).1.hub.holding? id listId
        = some (range.rebaseAll (Edit.survivors list.items edits)).1
      ∧ ((s.change listId edits).1.hub.desk id).waiting? = some (waiting
        ++ [.update list.kind ⟨listId, list.version + 1,
          (range.rebaseAll (Edit.survivors list.items edits)).2⟩]) := by
  have desk := desk_change sound found given id
  rw [if_pos subscribed] at desk
  have pushed := Desk.push_of_holding (d := s.hub.desk id) list.kind
    ⟨listId, list.version + 1, edits⟩ ((Edit.warningsFrom list.items 0 edits).map (·.place))
    tracked box
  rw [Holding.rebase_warnings] at pushed
  rw [← Hub.holding?_desk, desk]
  exact pushed

/-- A change of a list leaves all other lists. -/
theorem find_change_other {other : ListId} (apart : other ≠ listId) :
    (s.change listId edits).1.catalog.find other = s.catalog.find other := by
  cases done : (s.change listId edits).2 with
  | error failure => rw [change_of_refused done]
  | ok changed =>
    obtain ⟨some, list, found⟩ := find_of_changed done
    rw [find_change found some, if_neg apart]

/-- A change of a list leaves what connections hold of other lists, and pushes nothing to them but
updates of the list. -/
theorem desk_change_other (sound : s.Sound) (edits : List (Edit Item)) {id : ConnectionId}
    {waiting : List ServerMessage} (box : (s.hub.desk id).waiting? = some waiting) :
    (∀ other, other ≠ listId →
      ((s.change listId edits).1.hub.desk id).holding? other = (s.hub.desk id).holding? other)
    ∧ ∃ kind pushed,
      ((s.change listId edits).1.hub.desk id).waiting? = some (waiting ++ pushed)
      ∧ ∀ m ∈ pushed, ∃ b, m = .update kind b ∧ b.listId = listId := by
  have none (kind : Kind) : ∃ pushed, (s.hub.desk id).waiting? = some (waiting ++ pushed)
      ∧ ∀ m ∈ pushed, ∃ b, m = .update kind b ∧ b.listId = listId := by
    refine ⟨[], by rw [box, List.append_nil], ?_⟩
    intro m h
    cases h
  cases done : (s.change listId edits).2 with
  | error failure =>
    rw [change_of_refused done]
    exact ⟨fun _ _ => rfl, .index, none .index⟩
  | ok changed =>
    obtain ⟨some, list, found⟩ := find_of_changed done
    rw [desk_change sound found some]
    split
    · exact ⟨fun _ apart => Desk.holding?_push_other apart, list.kind, Desk.waiting_push box⟩
    · exact ⟨fun _ _ => rfl, list.kind, none list.kind⟩

/-! ## Reachable services -/

/-- A service is sound after a change, whatever is to be changed. -/
theorem Sound.change (sound : s.Sound) : (s.change listId edits).1.Sound := by
  refine ⟨?_, sound.hub.stays stays_change⟩
  cases failed : (s.change listId edits).2 with
  | error failure =>
    rw [change_of_refused failed]
    exact sound.named
  | ok changed =>
    obtain ⟨some, list, found⟩ := find_of_changed failed
    exact named_change sound found some

/-- All that can come of a message of a connection: the service after it, and the reply. -/
inductive Reply (s : Service) (id : ConnectionId) : ClientMessage → Service → ServerMessage → Prop
  | notLoaded {listId : ListId} {q : Query} {requestId : Option String} (message : String) :
    Reply s id (.load listId q requestId) s (.error message requestId)
  | loaded {listId : ListId} {q : Query} {requestId : Option String} {hub : Hub}
    (payload : Listing)
    (tracked : hub = s.hub ∨ ∃ start count, hub = s.hub.track id listId start count) :
    Reply s id (.load listId q requestId) { s with hub } (.loaded payload requestId)
  | notFound {listId : ListId} {requestId : Option String} (message : String)
    (missing : ∀ list, s.catalog.find listId ≠ .ok list) :
    Reply s id (.subscribe listId requestId) s (.error message requestId)
  | subscribed {listId : ListId} {requestId : Option String} {list : FullList}
    (found : s.catalog.find listId = .ok list) :
    Reply s id (.subscribe listId requestId) { s with hub := (s.hub.subscribe id listId).1 }
      (.subscribed listId list.version requestId)
  | unsubscribed {listId : ListId} {requestId : Option String} :
    Reply s id (.unsubscribe listId requestId) { s with hub := (s.hub.unsubscribe id listId).1 }
      (.unsubscribed listId requestId)
  | notFetched {request : FetchRequest} {requestId : Option String} (message : String) :
    Reply s id (.fetch request requestId) s (.error message requestId)
  | fetched {request : FetchRequest} {requestId : Option String} {hub : Hub} (answer : Answer)
    (tracked : hub = s.hub ∨ ∃ start count, hub = s.hub.extend id request.listId start count) :
    Reply s id (.fetch request requestId) { s with hub } (.fetched answer requestId)
  | pong : Reply s id .ping s .pong

/-- Nothing else comes of a message. -/
theorem reply_answer (s : Service) (id : ConnectionId) (m : ClientMessage) :
    Reply s id m (s.answer id m).1 (s.answer id m).2 := by
  unfold Service.answer
  cases m with
  | load listId q requestId =>
    dsimp only
    split
    · exact .notLoaded _
    · split
      · exact .loaded _ (.inr ⟨_, _, rfl⟩)
      · exact .loaded _ (.inl rfl)
  | subscribe listId requestId =>
    dsimp only
    rw [Catalog.summary]
    cases found : s.catalog.find listId with
    | error why => exact .notFound _ (by simp [found])
    | ok list => exact .subscribed found
  | unsubscribe listId requestId => exact .unsubscribed
  | fetch request requestId =>
    dsimp only
    split
    · exact .notFetched _
    · split
      · exact .fetched _ (.inr ⟨_, _, rfl⟩)
      · exact .fetched _ (.inl rfl)
  | ping => exact .pong

/-- What a message does: one may begin a subscription to a list that there is, one may end it, and
all others set at most the range that is held of a list. -/
theorem hub_answer (s : Service) (id : ConnectionId) (m : ClientMessage) :
    (s.answer id m).1.catalog = s.catalog
      ∧ (s.answer id m).1.hub.mailboxes = s.hub.mailboxes
      ∧ (s.hub.Stays (s.answer id m).1.hub
          ∧ (∀ listId requestId, m ≠ .unsubscribe listId requestId)
          ∧ (∀ listId requestId, m = .subscribe listId requestId →
            ∀ list, s.catalog.find listId ≠ .ok list)
        ∨ (∃ listId requestId list, m = .subscribe listId requestId
          ∧ s.catalog.find listId = .ok list
          ∧ (s.answer id m).1.hub = (s.hub.subscribe id listId).1)
        ∨ ∃ listId requestId, m = .unsubscribe listId requestId
          ∧ (s.answer id m).1.hub = (s.hub.unsubscribe id listId).1) := by
  have extended {listId : ListId} {start : Int} {count : Nat} :
      (s.hub.extend id listId start count).mailboxes = s.hub.mailboxes := by
    unfold Hub.extend
    split <;> rfl
  -- loads and fetches change what is tracked and nothing else of the hub
  have outcome := s.reply_answer id m
  generalize s.answer id m = result at outcome ⊢
  obtain ⟨next, reply⟩ := result
  dsimp only at outcome ⊢
  cases outcome with
  | notLoaded message => exact ⟨rfl, rfl, .inl ⟨.refl _, nofun, nofun⟩⟩
  | loaded payload tracked =>
    rcases tracked with rfl | ⟨start, count, rfl⟩
    · exact ⟨rfl, rfl, .inl ⟨.refl _, nofun, nofun⟩⟩
    · exact ⟨rfl, rfl, .inl ⟨Hub.stays_track .., nofun, nofun⟩⟩
  | notFound message missing =>
    refine ⟨rfl, rfl, .inl ⟨.refl _, nofun, ?_⟩⟩
    rintro listId requestId ⟨⟩
    exact missing
  | @subscribed listId requestId list found =>
    refine ⟨rfl, ?_, .inr (.inl ⟨listId, requestId, list, rfl, found, rfl⟩)⟩
    rw [Hub.subscribe_leaves]
  | @unsubscribed listId requestId =>
    exact ⟨rfl, rfl, .inr (.inr ⟨listId, requestId, rfl, rfl⟩)⟩
  | notFetched message => exact ⟨rfl, rfl, .inl ⟨.refl _, nofun, nofun⟩⟩
  | fetched answer tracked =>
    rcases tracked with rfl | ⟨start, count, rfl⟩
    · exact ⟨rfl, rfl, .inl ⟨.refl _, nofun, nofun⟩⟩
    · exact ⟨rfl, extended, .inl ⟨Hub.stays_extend .., nofun, nofun⟩⟩
  | pong => exact ⟨rfl, rfl, .inl ⟨.refl _, nofun, nofun⟩⟩

/-- A service is sound after it has answered a message. -/
theorem Sound.answer (sound : s.Sound) (id : ConnectionId) (m : ClientMessage) :
    (s.answer id m).1.Sound := by
  obtain ⟨catalog, -,
    ⟨stays, -⟩ | ⟨listId, -, -, -, -, subscribed⟩ | ⟨listId, -, -, unsubscribed⟩⟩ :=
    s.hub_answer id m
  · exact ⟨catalog ▸ sound.named, sound.hub.stays stays⟩
  · exact ⟨catalog ▸ sound.named, subscribed ▸ sound.hub.subscribe id listId⟩
  · exact ⟨catalog ▸ sound.named, unsubscribed ▸ sound.hub.unsubscribe id listId⟩

/-- A service is sound after every move. -/
theorem Sound.step (sound : s.Sound) (m : Move) : (s.step m).Sound := by
  cases m with
  | connect id => exact ⟨sound.named, sound.hub.registerAs id⟩
  | disconnect id => exact ⟨sound.named, sound.hub.unregister id⟩
  | message id m => exact sound.answer id m
  | change listId edits => exact sound.change
  | drain id => exact ⟨sound.named, sound.hub.stays (s.hub.stays_drain id)⟩
  | close id => exact ⟨sound.named, sound.hub.close id⟩

/-- A service that is reached from its start is sound. -/
theorem Reachable.sound (h : Reachable s) : s.Sound := by
  induction h with
  | start secret made => exact ⟨Catalog.named_ofSeeds made, Hub.sound_default⟩
  | step h m ih => exact ih.step m

end Service

end ListSync.Producer
