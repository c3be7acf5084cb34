import ListSync.Proofs.Producer.Paging
import ListSync.Proofs.Session.Pages
import ListSync.Proofs.Session.Rendering

/-!
# A session that leafs through a list

A session has loaded some pages of a token list, and the tokens of the pages beyond them name a page
in the direction in which they lead (`Leafs`). It asks for the next page in a direction, unless that
page is being fetched (`Leafs.turn`). The first answer to a request puts the items on the page to
the loaded ones, on the side to which the token of the page leads, and the page beyond is the next
one from then on (`Leafs.join`). Any other answer is refused and changes nothing (`Leafs.refuse`).
A batch edits the loaded items and leaves the pages beyond them (`Leafs.edit`).
-/

namespace ListSync

open Producer

/-- The window that a listing gives, with nothing in flight. -/
def TokenListing.window (p : TokenListing) : TokenWindow where
  anchor := p.page
  forward := p.forward
  backward := p.backward

/-- The list that a listing gives. -/
def TokenListing.list (p : TokenListing) : LoadedList := ⟨p.listId, p.items, .token p.window⟩

/-- A text names a page in a direction. -/
def Producer.PageToken.Leads (d : Direction) (text : String) : Prop :=
  ∃ page ≤ maxCount, text = (PageToken.toward d page).text

/-- The token of a page leads in one direction only. -/
theorem Producer.PageToken.Leads.direction_eq {d : Direction} {address : PageToken}
    (leads : PageToken.Leads d address.text) (fits : address.page ≤ maxCount) :
    address.direction = d := by
  obtain ⟨page, fits', same⟩ := leads
  have read := PageToken.parse?_text fits
  rw [same, PageToken.parse?_text ((PageToken.page_toward d page).symm ▸ fits')] at read
  rw [← Option.some.inj read, PageToken.direction_toward]

/-- What is next to a window, in each direction, is the token of a page in that direction. -/
def TokenWindow.Leads (w : TokenWindow) : Prop :=
  ∀ d page, w.adjacent d = some page → PageToken.Leads d page

/-- Next pages lead onwards once a window advances to one that does. -/
theorem TokenWindow.Leads.advance {w : TokenWindow} (leads : w.Leads) {d : Direction}
    {next : Option String} (beyond : ∀ page ∈ next, PageToken.Leads d page) :
    (w.advance d next).Leads := by
  intro d' page adjacent
  by_cases same : d' = d
  · subst same
    refine beyond page ?_
    cases d' <;> exact adjacent
  · rw [w.adjacent_advance_other same] at adjacent
    exact leads d' page adjacent

namespace Session

/-- A session that can come about has loaded some pages of a token list. What was asked for is
known. -/
structure Leafs (s : Session) (listId : ListId) (asked : List FetchRequest) (l : LoadedList)
    (w : TokenWindow) : Prop where
  reachable : s.Reachable
  found : s.find? listId = some l
  loaded : l.window = .token w
  leads : w.Leads
  logged : s.Logged listId asked

variable {s next : Session} {listId : ListId} {asked : List FetchRequest} {l : LoadedList}
  {w : TokenWindow}

theorem Leafs.sound (leafs : s.Leafs listId asked l w) : s.core.Sound := leafs.reachable.sound

theorem Leafs.unfinished (leafs : s.Leafs listId asked l w) : s.finished = false :=
  leafs.sound.unfinished leafs.found

theorem Leafs.kind (leafs : s.Leafs listId asked l w) : l.kind = .token := by
  rw [LoadedList.kind, leafs.loaded, Window.kind]

/-- The pages in flight of a client that leafs are those that it asks for. -/
theorem Leafs.inStep (leafs : s.Leafs listId asked l w) :
    InStep w (s.entry listId).requests :=
  leafs.reachable.entry_inStep listId l w leafs.found leafs.loaded

/-! ## The first page -/

/-- A listing of a page is always taken in. -/
theorem register_page {p : TokenListing} (unfinished : s.finished = false)
    (version : ∀ v ∈ p.version, v ≤ maxCount) :
    s.register Kind.token.name (Listing.token p).toJson
      = ((s.install p.list p.version).1, .ok (s.install p.list p.version).2) := by
  have parsed := Listing.parse_toJson_token version
  have kind : Kind.parse Kind.token.name = .ok .token := rfl
  refine register_of_read unfinished ?_
  simp only [readList, kind, parsed, bind, Except.bind, LoadedList.ofPayload]
  rfl

/-- A session that has registered a page leafs from it on, and has asked for nothing yet. -/
theorem leafs_loaded {p : TokenListing} (reachable : s.Reachable)
    (unfinished : s.finished = false) (version : ∀ v ∈ p.version, v ≤ maxCount)
    (leads : p.window.Leads) (requestId : Option String) :
    s.accepts (.loaded (.token p) requestId)
      ∧ (s.receive (.loaded (.token p) requestId)).Leafs p.listId [] p.list p.window
      ∧ (∀ token, ¬(s.receive (.loaded (.token p) requestId)).Open p.listId token)
      ∧ (s.receive (.loaded (.token p) requestId)).version? p.listId = p.version := by
  have stepped := reachable.step (.register Kind.token.name (Listing.token p).toJson)
  have registered := register_page unfinished version
  have received : s.receive (.loaded (.token p) requestId) = (s.install p.list p.version).1 :=
    congrArg Prod.fst registered
  -- whatever was asked for an earlier list of the name is abandoned
  have none : ((s.install p.list p.version).1.entry p.listId).requests = [] := by
    rw [entry, core_install]
    exact (s.requests.pendingFor_abandon ..).trans (if_pos rfl)
  rw [step, registered] at stepped
  rw [received]
  refine ⟨?_, ⟨stepped, (find?_install reachable.sound ..).trans (if_pos rfl), rfl, leads, by simp,
    by simp, ?_⟩, ?_, (version?_install ..).trans (if_pos rfl)⟩
  · show (s.register Kind.token.name _).2.isOk = true
    rw [registered]
    rfl
  · rw [none]
    exact fun r hr => absurd hr List.not_mem_nil
  · rintro token ⟨r, pending, -⟩
    rw [none] at pending
    exact absurd pending List.not_mem_nil

/-! ## Turning -/

/-- The next page of a list in a direction is wanted, and what is then handed out is taken. -/
def turn (s : Session) (listId : ListId) (d : Direction) : Session × List FetchRequest :=
  let next := (s.fetchPage listId d).1
  (next.emptied, s.handedOut next)

/-- Nothing is asked for exactly when there is no next page, or it is being fetched. -/
theorem Leafs.fetchPage_eq_none_iff (leafs : s.Leafs listId asked l w) (d : Direction) :
    (s.fetchPage listId d).2 = .ok none ↔ w.needsFetch d = none := by
  unfold fetchPage
  rw [findKind_eq_ok_iff.2 ⟨leafs.found, leafs.kind⟩]
  simp only [leafs.unfinished, leafs.loaded, Bool.false_eq_true, if_false]
  cases w.needsFetch d <;> simp

/-- To want a page is to be handed new requests, for next pages. The loaded items and what is next
stay as they are. -/
theorem Leafs.turn (leafs : s.Leafs listId asked l w) {d : Direction} {new : List FetchRequest}
    (turned : s.turn listId d = (next, new)) :
    ∃ w', next.Leafs listId (asked ++ new) { l with window := .token w' } w'
      ∧ (∀ f ∈ new, ∃ page d', f = .page f.token listId page ∧ w.adjacent d' = some page)
      ∧ (∀ token, next.Open listId token
        ↔ s.Open listId token ∨ token ∈ new.map (·.token))
      ∧ next.versions = s.versions
      ∧ ∀ d', w'.adjacent d' = w.adjacent d' := by
  obtain ⟨w', rs, turns, issued⟩ := asked_fetchPage leafs.sound leafs.found leafs.loaded d
  obtain ⟨rs', posted⟩ := posted_fetchPage leafs.sound.requests listId d
  obtain ⟨rfl, requests⟩ := issued.eq_of_posted posted
  obtain ⟨pages, same⟩ := turns.adjacent
  obtain ⟨rfl, rfl⟩ := Prod.mk.inj turned
  rw [posted.handedOut]
  refine ⟨w', ⟨((leafs.reachable.step (.fetchPage listId d)).step .takeRequests).step .takeHeard,
    issued.found leafs.found, rfl, ?_, ?_⟩, ?_, ?_, issued.versions, same⟩
  · intro d' page adjacent
    exact leafs.leads d' page ((same d').symm.trans adjacent)
  · obtain ⟨issued, distinct, pending⟩ := leafs.logged.append posted.grows requests
    exact ⟨issued, distinct, pending⟩
  · intro f hf
    obtain ⟨r, hr, rfl⟩ := List.mem_map.1 hf
    obtain ⟨page, d', target, adjacent⟩ := pages r.target (List.mem_map_of_mem hr)
    refine ⟨page, d', ?_, adjacent⟩
    rw [r.token_toFetch, Request.toFetch, target, (posted.own r hr).1]
  · exact open_of_append requests

/-! ## Answers -/

/-- A page answer is read as it was written. -/
theorem readUpdate_page {a : PageAnswer} (version : a.version = none) :
    readUpdate Kind.token.name a.toJson = .ok (.token, .page a) :=
  bind_eq_ok_iff.2 ⟨.token, rfl,
    bind_eq_ok_iff.2 ⟨_, Update.parse_toJson_page (by simp [version]), rfl⟩⟩

/-- The first answer to a request puts the items on the page to the loaded ones, on the side to
which the token of the page leads. -/
theorem Leafs.join {a : PageAnswer} {address : PageToken}
    (leafs : s.Leafs a.listId asked l w) (version : a.version = none) (page : a.page = address.text)
    (fits : address.page ≤ maxCount)
    (beyond : ∀ page ∈ a.next, PageToken.Leads address.direction page)
    (taken : FetchRequest.page a.token a.listId a.page ∈ asked) (opened : s.Open a.listId a.token)
    (requestId : Option String) :
    s.accepts (.fetched (.page a) requestId)
      ∧ w.adjacent address.direction = some a.page
      ∧ (∀ token, (s.receive (.fetched (.page a) requestId)).Open a.listId token
        ↔ s.Open a.listId token ∧ token ≠ a.token)
      ∧ (s.receive (.fetched (.page a) requestId)).versions = s.versions
      ∧ (s.receive (.fetched (.page a) requestId)).Leafs a.listId asked
        { l with
          items := pagedItems address.direction l.items a.items
          window := .token ((w.clear a.page).advance address.direction a.next) }
        ((w.clear a.page).advance address.direction a.next) := by
  obtain ⟨r, pending, named⟩ := opened
  obtain ⟨mem, own⟩ := RequestTable.mem_pendingFor.1 pending
  -- the request asks for this page, in the direction of its token
  obtain ⟨asked', d, target, adjacent⟩ := leafs.inStep.adjacent r pending
  have fetch := leafs.logged.toFetch_eq taken pending named
  rw [Request.toFetch, target] at fetch
  obtain ⟨-, -, rfl⟩ := FetchRequest.page.inj fetch
  obtain rfl : address.direction = d :=
    PageToken.Leads.direction_eq (page ▸ leafs.leads d _ adjacent) fits
  have answered : Answered s ⟨Kind.token.name, a.toJson⟩ (.page a) l r :=
    ⟨leafs.unfinished, leafs.kind.symm ▸ readUpdate_page version, own ▸ leafs.found, mem, own.symm,
      by rw [Update.token?, named], by rw [Update.version, version]; rfl⟩
  obtain ⟨checked, applied⟩ := apply_of_page leafs.sound.requests answered leafs.loaded target
  obtain ⟨core, answer⟩ := applyPage_spec checked leafs.loaded
  rw [← applied] at core answer
  have stepped := leafs.reachable.step (.apply Kind.token.name a.toJson)
  rw [← named, ← own] at core
  have entry := entry_of_settled leafs.sound answered core
  rw [own] at entry
  have requests := congrArg Entry.requests entry
  have versions : (s.apply Kind.token.name a.toJson).1.versions = s.versions := by
    have changed := congrArg Core.versions core
    rw [version] at changed
    exact changed
  refine ⟨?_, adjacent, ?_, versions, ⟨stepped, congrArg Entry.list? entry, rfl, ?_, ?_⟩⟩
  · show (s.apply Kind.token.name a.toJson).2.isOk = true
    rw [answer]
    rfl
  · rw [← named]
    exact open_of_erase leafs.sound pending requests
  · refine TokenWindow.Leads.advance ?_ beyond
    intro d page next
    rw [w.adjacent_clear] at next
    exact leafs.leads d page next
  · refine leafs.logged.settle ?_ ?_
    · exact (tickets_of_outcome (outcome_apply s ⟨Kind.token.name, a.toJson⟩)).1
    · intro r' hr'
      rw [show ((s.receive (.fetched (.page a) requestId)).entry a.listId).requests = _
        from requests] at hr'
      exact List.mem_of_mem_erase hr'

/-- An answer to nothing that is outstanding is refused and changes nothing that the session knows.
-/
theorem Leafs.refuse {a : PageAnswer} (leafs : s.Leafs a.listId asked l w)
    (version : a.version = none) (closed : ¬s.Open a.listId a.token) (requestId : Option String) :
    ¬s.accepts (.fetched (.page a) requestId)
      ∧ (∀ token, (s.receive (.fetched (.page a) requestId)).Open a.listId token
        ↔ s.Open a.listId token)
      ∧ (s.receive (.fetched (.page a) requestId)).Leafs a.listId asked l w := by
  have settled : ∀ r ∈ (s.entry a.listId).requests, r.token ≠ a.token :=
    fun r pending named => closed ⟨r, pending, named⟩
  obtain ⟨why, refused, core⟩ := refused_of_settled (readUpdate_page version) rfl settled
  have entry : (s.receive (.fetched (.page a) requestId)).entry a.listId = s.entry a.listId :=
    congrArg (·.entry a.listId) core
  refine ⟨?_, fun token => by rw [Open, Open, entry], ⟨?_, ?_, leafs.loaded, leafs.leads, ?_⟩⟩
  · show ¬(s.apply Kind.token.name a.toJson).2.isOk = true
    rw [refused]
    exact Bool.false_ne_true
  · exact leafs.reachable.step (.apply Kind.token.name a.toJson)
  · exact (congrArg Entry.list? entry).trans leafs.found
  · refine leafs.logged.settle (congrArg (·.requests.counter) core) ?_
    rw [entry]
    exact fun r hr => hr

/-! ## Batches -/

/-- A batch of the next version edits the loaded items. What is next, and what is outstanding, stays
as it is. -/
theorem Leafs.edit {b : Batch} {v : Version} (leafs : s.Leafs b.listId asked l w)
    (current : s.version? b.listId = some v) (next : b.version = v + 1) (inRange : b.InRange)
    (fits : Edit.AllFit l.items b.edits) :
    (s.receive (.update .token b)).Leafs b.listId asked
        { l with items := Edit.spliceAll b.edits l.items } w
      ∧ (∀ token, (s.receive (.update .token b)).Open b.listId token ↔ s.Open b.listId token)
      ∧ (s.receive (.update .token b)).version? b.listId = some b.version := by
  have accepted := edits?_of_next leafs.sound leafs.found current next inRange
  have version := (apply_fitting leafs.sound leafs.found current next inRange fits).version
  rw [leafs.kind] at accepted version
  have entry := entry_of_edits? (m := .apply Kind.token.name b.toJson) leafs.sound rfl accepted
  rw [applyEdits_items, leafs.loaded, editedWindow, editedRequests] at entry
  have requests : ((s.receive (.update .token b)).entry b.listId).requests
      = s.requests.pendingFor b.listId := congrArg Entry.requests entry
  have counter : (s.receive (.update .token b)).requests.counter = s.requests.counter :=
    (tickets_of_outcome (outcome_apply s ⟨Kind.token.name, b.toJson⟩)).1
  refine ⟨⟨leafs.reachable.step (.apply Kind.token.name b.toJson), ?_, leafs.loaded, leafs.leads,
    leafs.logged.settle counter ?_⟩, fun token => by rw [Open, requests]; rfl, version⟩
  · rw [← leafs.loaded] at entry
    exact congrArg Entry.list? entry
  · rw [requests]
    exact fun r hr => hr

end Session

end ListSync
