import ListSync.Proofs.Filling
import ListSync.Proofs.Session.Leafing

/-!
# A client that leafs through a list

A client loads any page of a token list, which nobody changes meanwhile, and registers it. Then
turns to the next page in either direction, fetches and arrivals follow each other in any order: a
request may be sent more than once, and an answer may be delivered at any time and more than once.

What is first loaded is taken in, every request is answered with a page, and an answer is accepted
exactly when it is the first one to its request that is delivered. All along, the loaded items are
those on pages that follow each other, around the page that was loaded first. Once there is nothing
more to ask for in either direction and nothing is outstanding, they are the whole list
(`leafs_through`).

What carries the proof is that the token next to the loaded pages, in each direction, is the one
that the list has for the page beyond them (`Reads`). So an answer that is accepted gives just the
page beyond, and brings the token of the page after that.
-/

namespace ListSync

open Producer

/-! ## Pages that follow each other -/

namespace Producer.FullList

/-- Pages of a list that follow each other, all of which are there. -/
structure Pages (list : FullList) where
  first : Nat
  last : Nat
  ordered : first ≤ last
  there : list.hasPage last

namespace Pages

variable {list : FullList} (p : list.Pages)

/-- A page by itself. -/
def single {page : Nat} (there : list.hasPage page) : list.Pages :=
  ⟨page, page, Nat.le_refl _, there⟩

/-- The items on the pages. -/
def items : List Item := list.leaves p.first (p.last + 1 - p.first)

/-- The page that is furthest in a direction. -/
def edge : Direction → Nat
  | .forward => p.last
  | .backward => p.first

/-- On a page by itself are the items of that page. -/
theorem items_single {page : Nat} (there : list.hasPage page) :
    (single there).items = list.pageItems page := by
  have one : page + 1 - page = 1 := Nat.add_sub_cancel_left ..
  rw [items, single, one, leaves_succ, Nat.add_zero]
  rfl

/-- To turn to the page beyond is to put its items to the others. -/
theorem turn {d : Direction} {text : String} (next : list.adjacent d (p.edge d) = some text) :
    ∃ p' : list.Pages, text = (PageToken.toward d (p'.edge d)).text ∧ list.hasPage (p'.edge d)
      ∧ p'.items = Session.pagedItems d p.items (list.pageItems (p'.edge d))
      ∧ (∀ d', d' ≠ d → p'.edge d' = p.edge d') ∧ p'.first ≤ p.first ∧ p.last ≤ p'.last := by
  obtain ⟨first, last, ordered, there⟩ := p
  -- in either direction one page more is read, at the edge that is turned to
  cases d with
  | forward =>
    obtain ⟨more, named⟩ := forwardOf_eq_some_iff.1 next
    have beyond := hasPage_of_lt more
    have count : last + 1 + 1 - first = last + 1 - first + 1 := by omega
    have place : first + (last + 1 - first) = last + 1 := by omega
    refine ⟨⟨first, last + 1, Nat.le_succ_of_le ordered, beyond⟩, named, beyond, ?_, ?_,
      Nat.le_refl _, Nat.le_succ _⟩
    · rw [items, count, leaves_succ, place]
      rfl
    · intro d' other
      cases d' with
      | forward => exact absurd rfl other
      | backward => rfl
  | backward =>
    obtain ⟨before, same, named⟩ := list.backwardOf_eq_some_iff.1 next
    obtain rfl : first = before + 1 := same
    have beyond := hasPage_of_le there (Nat.le_of_succ_le ordered)
    have count : last + 1 - before = last + 1 - (before + 1) + 1 := by omega
    refine ⟨⟨before, last, Nat.le_of_succ_le ordered, there⟩, named, beyond, ?_, ?_,
      Nat.le_succ _, Nat.le_refl _⟩
    · rw [items, count, leaves_cons]
      rfl
    · intro d' other
      cases d' with
      | forward => rfl
      | backward => exact absurd rfl other

/-- Pages beyond which there is none are all pages. -/
theorem items_eq (nothing : ∀ d, list.adjacent d (p.edge d) = none) : p.items = list.items := by
  have first : p.first = 0 := by
    have before := nothing .backward
    cases same : p.first with
    | zero => rfl
    | succ page =>
      rw [edge, same] at before
      cases before
  have last : list.pageCount ≤ p.last + 1 := by
    refine Nat.le_of_not_lt fun more => ?_
    have behind : list.forwardOf p.last = none := nothing .forward
    rw [forwardOf_eq_some_iff.2 ⟨more, rfl⟩] at behind
    cases behind
  rw [items, first]
  exact leaves_all last

end Pages

/-- The token of the page beyond one leads on in the direction. -/
theorem leads_adjacent {list : FullList} (room : (list.items.length : Int) ≤ Index.greatest)
    {page : Nat} (there : list.hasPage page) {d : Direction} {text : String}
    (next : list.adjacent d page = some text) : PageToken.Leads d text := by
  have single : (Pages.single there).edge d = page := by cases d <;> rfl
  obtain ⟨p', named, there', -⟩ := (Pages.single there).turn (single.symm ▸ next)
  exact ⟨_, list.page_le_of_hasPage room there', named⟩

/-- The tokens with which a page is loaded lead on in their directions. -/
theorem leads_pageListing {list : FullList} (room : (list.items.length : Int) ≤ Index.greatest)
    {page : Nat} (there : list.hasPage page) : (list.pageListing page).window.Leads := by
  intro d text next
  refine leads_adjacent room there (d := d) ?_
  rw [← next]
  cases d <;> rfl

end Producer.FullList

/-- The pages that a message answers with. -/
def Producer.ServerMessage.pages : ServerMessage → List PageAnswer
  | .fetched (.page a) _ => [a]
  | _ => []

/-- What is loaded is what is on some pages of a list, and the tokens of the pages beyond are known.
-/
structure Reads {list : FullList} (p : list.Pages) (l : LoadedList) (w : TokenWindow) : Prop where
  items : l.items = p.items
  adjacent : ∀ d, w.adjacent d = list.adjacent d (p.edge d)

variable {list : FullList} {p : list.Pages} {l : LoadedList} {w : TokenWindow}

/-- The page beyond is put to the loaded ones. -/
theorem Reads.join (reads : Reads p l w) (room : (list.items.length : Int) ≤ Index.greatest)
    {address : PageToken} (there : list.hasPage address.page)
    (next : w.adjacent address.direction = some address.text) :
    ∃ p' : list.Pages, p'.first ≤ p.first ∧ p.last ≤ p'.last
      ∧ Reads p'
        { l with
          items := Session.pagedItems address.direction l.items (list.pageItems address.page)
          window := .token ((w.clear address.text).advance address.direction
            (list.beyond address)) }
        ((w.clear address.text).advance address.direction (list.beyond address)) := by
  obtain ⟨p', named, there', items, others, before, behind⟩ :=
    p.turn ((reads.adjacent _).symm.trans next)
  -- the text of the page beyond is read as its token
  have same : address = PageToken.toward address.direction (p'.edge address.direction) := by
    have fits := list.page_le_of_hasPage room there'
    have read := PageToken.parse?_text (list.page_le_of_hasPage room there)
    rw [named, PageToken.parse?_text ((PageToken.page_toward _ _).symm ▸ fits)] at read
    exact (Option.some.inj read).symm
  have page : address.page = p'.edge address.direction :=
    (congrArg PageToken.page same).trans (PageToken.page_toward ..)
  have beyond : list.beyond address
      = list.adjacent address.direction (p'.edge address.direction) := by
    rw [list.beyond_eq, page]
  refine ⟨p', before, behind, ?_, ?_⟩
  · rw [items, ← page, ← reads.items]
  · intro d
    by_cases turned : d = address.direction
    · rw [turned, ← beyond]
      cases address.direction <;> rfl
    · rw [TokenWindow.adjacent_advance_other turned, w.adjacent_clear, reads.adjacent,
        others d turned]

/-- The page that is loaded first is read. -/
theorem reads_single {page : Nat} (there : list.hasPage page) :
    Reads (.single there) (list.pageListing page).list (list.pageListing page).window where
  items := (FullList.Pages.items_single there).symm
  adjacent d := by cases d <;> rfl

/-! ## Service and client -/

namespace Leafing

/-- What can happen while a client leafs through a list. -/
inductive Move where
  /-- The client wants the next page in a direction. -/
  | turn (d : Direction)
  /-- The request at a place among those that were made is sent to the service. -/
  | send (place : Nat)
  /-- The message at a place among those that the service has sent is delivered. -/
  | deliver (place : Nat)

/-- The service and the client after a move. -/
def step (f : Filling) : Move → Filling
  | .turn d =>
    let (client, requests) := f.client.turn f.listId d
    { f with client, asked := f.asked ++ requests }
  | .send place => f.step (.send place)
  | .deliver place =>
    match f.replies[place]? with
    | none => f
    | some m =>
      { f with
        client := f.client.receive m
        arrived := f.arrived ++ m.pages.map (·.token) }

/-- What a client sends is a text. Whichever text is read as the fetch, the service processes it. -/
theorem step_send_of_read {f : Filling} {place : Nat} {request : FetchRequest} {text : String}
    (asked : f.asked[place]? = some request)
    (read : ClientMessage.read? text = some (.fetch request none)) :
    step f (.send place) =
      { f with
        service := (f.service.process f.id text).1
        replies := f.replies ++ [(f.service.process f.id text).2] } :=
  Filling.step_send_of_read asked read

/-- There is no next page in either direction that is not being fetched, and nothing is outstanding.
-/
def Exhausted (f : Filling) : Prop :=
  (∀ d, (f.client.fetchPage f.listId d).2 = .ok none) ∧ f.client.outstanding f.listId = []

/-- The client shows the items on pages of a list that follow each other, around a page. Once there
is nothing more to ask for, these are all items of the list. -/
def ShowsLaw (list : FullList) (around : Nat) (f : Filling) : Prop :=
  ∃ l first last, f.client.find? f.listId = some l ∧ first ≤ around ∧ around ≤ last
    ∧ list.hasPage last ∧ l.items = list.leaves first (last + 1 - first)
    ∧ (Exhausted f → l.items = list.items)

/-- A request that is sent is answered with a page. An answer that is delivered is accepted exactly
when it is the first one to its request. -/
def Succeeds (f : Filling) : Move → Prop
  | .turn _ => True
  | .send place => ∀ request ∈ f.asked[place]?,
    (f.service.answer f.id (.fetch request none)).2.pages.map (·.token) = [request.token]
  | .deliver place => ∀ m ∈ f.replies[place]?,
    f.client.accepts m ↔ ∀ a ∈ m.pages, a.token ∉ f.arrived

/-! ## What every move keeps -/

/-- A request asks for a page of a list that is there. -/
def Asks (list : FullList) (r : FetchRequest) : Prop :=
  ∃ address : PageToken, r = .page r.token list.id address.text ∧ list.hasPage address.page

/-- How a client stands that leafs through a list, and its service. -/
structure Leafed (list : FullList) (around : Nat) (f : Filling) (p : list.Pages) (l : LoadedList)
    (w : TokenWindow) : Prop where
  own : f.listId = list.id
  backing : f.service.catalog.find list.id = .ok list
  kind : list.kind = .token
  room : (list.items.length : Int) ≤ Index.greatest
  leafs : f.client.Leafs list.id f.asked l w
  reads : Reads p l w
  before : p.first ≤ around
  behind : around ≤ p.last
  asks : ∀ r ∈ f.asked, Asks list r
  replies : ∀ m ∈ f.replies, ∃ token address,
    m = .fetched (.page (list.pageAnswer token address)) none
      ∧ list.hasPage address.page ∧ FetchRequest.page token list.id address.text ∈ f.asked
  /-- Outstanding are the requests to which no answer has been delivered. -/
  pending : ∀ token, f.client.Open list.id token
    ↔ token ∈ f.asked.map (·.token) ∧ token ∉ f.arrived
  known : ∀ token ∈ f.arrived, token ∈ f.asked.map (·.token)

variable {f : Filling} {around : Nat}

/-- A client that leafs on does so around the same page. -/
theorem Leafed.turn (leafed : Leafed list around f p l w) (d : Direction) :
    ∃ l' w', Leafed list around (step f (.turn d)) p l' w' := by
  obtain ⟨own, backing, kind, room, leafs, reads, before, behind, asks, replies, pending, known⟩ :=
    leafed
  generalize turned : f.client.turn list.id d = result
  obtain ⟨next, new⟩ := result
  obtain ⟨w', leafs', pages, opened, -, same⟩ := leafs.turn turned
  have stepped : step f (.turn d) = { f with client := next, asked := f.asked ++ new } := by
    rw [step, own, turned]
  -- no answer to a new request can have been delivered
  have fresh : ∀ token ∈ f.arrived, token ∉ new.map (·.token) := fun token delivered =>
    leafs'.logged.fresh (known token delivered)
  have asked (token : CorrelationToken) : token ∈ (f.asked ++ new).map (·.token)
      ↔ token ∈ f.asked.map (·.token) ∨ token ∈ new.map (·.token) := by
    rw [List.map_append, List.mem_append]
  rw [stepped]
  refine ⟨_, w', own, backing, kind, room, leafs', ⟨reads.items, fun d => ?_⟩, before, behind, ?_,
    ?_, ?_, ?_⟩
  · rw [same, reads.adjacent]
  · refine List.forall_mem_append.2 ⟨asks, fun r hr => ?_⟩
    obtain ⟨page, d', made, next⟩ := pages r hr
    obtain ⟨p', named, there, -⟩ := p.turn ((reads.adjacent d').symm.trans next)
    exact ⟨PageToken.toward d' (p'.edge d'), named ▸ made, (PageToken.page_toward ..).symm ▸ there⟩
  · intro m hm
    obtain ⟨token, address, answer, there, taken⟩ := replies m hm
    exact ⟨token, address, answer, there, List.mem_append_left _ taken⟩
  · intro token
    dsimp only
    rw [opened, pending, asked]
    have := fresh token
    tauto
  · intro token delivered
    exact (asked token).2 (.inl (known token delivered))

/-- A request that is sent is answered with the page that it asks for. -/
theorem Leafed.answered (leafed : Leafed list around f p l w) {request : FetchRequest}
    (made : request ∈ f.asked) :
    ∃ address, request = .page request.token list.id address.text ∧ list.hasPage address.page
      ∧ (f.service.answer f.id (.fetch request none)).2
        = .fetched (.page (list.pageAnswer request.token address)) none
      ∧ (f.service.answer f.id (.fetch request none)).1.catalog.find list.id = .ok list := by
  obtain ⟨address, asks, there⟩ := leafed.asks request made
  generalize request.token = token at asks ⊢
  subst asks
  have answer := Service.answer_page leafed.backing leafed.kind leafed.room there f.id token none
  rw [answer]
  exact ⟨address, rfl, there, rfl, leafed.backing⟩

/-- A request that is sent leaves what the client shows. -/
theorem Leafed.send (leafed : Leafed list around f p l w) (place : Nat) :
    Leafed list around (step f (.send place)) p l w := by
  cases chosen : f.asked[place]? with
  | none =>
    rw [step, Filling.step, chosen]
    exact leafed
  | some request =>
    have made : request ∈ f.asked := List.mem_of_getElem? chosen
    obtain ⟨address, asks, there, answer, backing⟩ := leafed.answered made
    have stepped : step f (.send place) = { f with
        service := (f.service.answer f.id (.fetch request none)).1
        replies := f.replies
          ++ [.fetched (.page (list.pageAnswer request.token address)) none] } := by
      rw [step, Filling.step, chosen, ← answer]
    rw [stepped]
    refine { leafed with backing, replies := ?_ }
    refine List.forall_mem_append.2 ⟨leafed.replies, List.forall_mem_singleton.2 ?_⟩
    exact ⟨request.token, address, rfl, there, asks ▸ made⟩

/-- An answer is accepted exactly when it is the first one to its request that is delivered. Then
the page is put to the loaded ones. -/
theorem Leafed.received (leafed : Leafed list around f p l w) {token : CorrelationToken}
    {address : PageToken} (there : list.hasPage address.page)
    (taken : FetchRequest.page token list.id address.text ∈ f.asked) :
    ∃ (p' : list.Pages) (l' : LoadedList) (w' : TokenWindow), p'.first ≤ p.first ∧ p.last ≤ p'.last
      ∧ Reads p' l' w'
      ∧ (f.client.receive (.fetched (.page (list.pageAnswer token address)) none)).Leafs list.id
        f.asked l' w'
      ∧ (f.client.accepts (.fetched (.page (list.pageAnswer token address)) none)
        ↔ token ∉ f.arrived)
      ∧ ∀ other, (f.client.receive (.fetched (.page (list.pageAnswer token address)) none)).Open
          list.id other
        ↔ other ∈ f.asked.map (·.token) ∧ other ∉ f.arrived ++ [token] := by
  have fits := list.page_le_of_hasPage leafed.room there
  have asked : token ∈ f.asked.map (·.token) := List.mem_map_of_mem taken
  have pending : f.client.Open list.id token ↔ token ∉ f.arrived := by
    rw [leafed.pending]
    exact and_iff_right asked
  -- an answer that comes a second time is refused and changes nothing
  by_cases delivered : token ∈ f.arrived
  · obtain ⟨refused, opened, leafs⟩ := Session.Leafs.refuse
      (a := list.pageAnswer token address) leafed.leafs rfl (mt pending.1 (not_not.2 delivered))
      none
    refine ⟨p, l, w, Nat.le_refl _, Nat.le_refl _, leafed.reads, leafs,
      iff_of_false refused (not_not.2 delivered), fun other => (opened other).trans ?_⟩
    show f.client.Open list.id other ↔ _
    rw [leafed.pending, List.mem_append, List.mem_singleton]
    refine and_congr_right fun _ => not_congr ⟨.inl, ?_⟩
    rintro (old | rfl)
    · exact old
    · exact delivered
  · have beyond : ∀ text ∈ list.beyond address, PageToken.Leads address.direction text := by
      rw [list.beyond_eq]
      exact fun _ next => FullList.leads_adjacent leafed.room there next
    obtain ⟨accepted, adjacent, opened, -, leafs⟩ := Session.Leafs.join
      (a := list.pageAnswer token address) leafed.leafs rfl rfl fits beyond taken
      (pending.2 delivered) none
    obtain ⟨p', before, behind, reads⟩ := leafed.reads.join leafed.room there adjacent
    refine ⟨p', _, _, before, behind, reads, leafs, iff_of_true accepted delivered,
      fun other => (opened other).trans ?_⟩
    show f.client.Open list.id other ∧ other ≠ token ↔ _
    rw [leafed.pending, List.mem_append, List.mem_singleton, not_or, and_assoc]

/-- An answer that is delivered leaves a client that leafs around the same page. -/
theorem Leafed.deliver (leafed : Leafed list around f p l w) (place : Nat) :
    ∃ p' l' w', Leafed list around (step f (.deliver place)) p' l' w' := by
  cases chosen : f.replies[place]? with
  | none =>
    rw [step, chosen]
    exact ⟨p, l, w, leafed⟩
  | some m =>
    obtain ⟨token, address, rfl, there, taken⟩ := leafed.replies m (List.mem_of_getElem? chosen)
    obtain ⟨p', l', w', before, behind, reads, leafs, -, pending⟩ := leafed.received there taken
    have stepped : step f (.deliver place) = { f with
        client := f.client.receive (.fetched (.page (list.pageAnswer token address)) none)
        arrived := f.arrived ++ [token] } := by
      rw [step, chosen]
      rfl
    rw [stepped]
    refine ⟨p', l', w', leafed.own, leafed.backing, leafed.kind, leafed.room, leafs, reads,
      Nat.le_trans before leafed.before, Nat.le_trans leafed.behind behind, leafed.asks,
      leafed.replies, pending, ?_⟩
    exact List.forall_mem_append.2
      ⟨leafed.known, List.forall_mem_singleton.2 (List.mem_map_of_mem taken)⟩

/-- A client leafs around the same page after every move. -/
theorem Leafed.step (leafed : Leafed list around f p l w) (m : Move) :
    ∃ p' l' w', Leafed list around (step f m) p' l' w' := by
  cases m with
  | turn d =>
    obtain ⟨l', w', turned⟩ := leafed.turn d
    exact ⟨p, l', w', turned⟩
  | send place => exact ⟨p, l, w, leafed.send place⟩
  | deliver place => exact leafed.deliver place

/-! ## What follows -/

/-- While a client leafs, requests are answered and first answers accepted. -/
theorem Leafed.succeeds (leafed : Leafed list around f p l w) (m : Move) : Succeeds f m := by
  cases m with
  | turn d => trivial
  | send place =>
    intro request chosen
    obtain ⟨address, -, -, answer, -⟩ := leafed.answered (List.mem_of_getElem? chosen)
    rw [answer]
    rfl
  | deliver place =>
    intro m chosen
    obtain ⟨token, address, rfl, there, taken⟩ := leafed.replies m (List.mem_of_getElem? chosen)
    obtain ⟨-, -, -, -, -, -, -, accepted, -⟩ := leafed.received there taken
    rw [accepted]
    show token ∉ f.arrived ↔ ∀ a ∈ [list.pageAnswer token address], a.token ∉ f.arrived
    rw [List.forall_mem_singleton]
    rfl

/-- Where nothing is outstanding, nothing is in flight. So where there is also nothing to ask for,
there is no next page. -/
theorem Leafed.items_of_exhausted (leafed : Leafed list around f p l w)
    (exhausted : Exhausted f) : l.items = list.items := by
  obtain ⟨nothing, settled⟩ := exhausted
  rw [leafed.own] at nothing settled
  have inFlight : w.inFlight = [] := by
    have none : f.client.requests.pendingFor list.id = [] :=
      List.Perm.nil_eq (settled ▸ f.client.requests.outstanding_perm list.id) |>.symm
    have perm := leafed.leafs.inStep.inFlight
    rw [show (f.client.entry list.id).requests = [] from none] at perm
    exact List.Perm.eq_nil perm
  rw [leafed.reads.items]
  refine p.items_eq fun d => ?_
  have unneeded := (leafed.leafs.fetchPage_eq_none_iff d).1 (nothing d)
  rw [← leafed.reads.adjacent]
  cases adjacent : w.adjacent d with
  | none => rfl
  | some page =>
    have needed : w.needsFetch d = some page :=
      TokenWindow.needsFetch_eq_some_iff.2 ⟨adjacent, inFlight ▸ List.not_mem_nil⟩
    rw [unneeded] at needed
    cases needed

/-- A client that leafs shows pages that follow each other. -/
theorem Leafed.shows (leafed : Leafed list around f p l w) : ShowsLaw list around f :=
  ⟨l, p.first, p.last, leafed.own ▸ leafed.leafs.found, leafed.before, leafed.behind, p.there,
    leafed.reads.items, leafed.items_of_exhausted⟩

/-- A client that has registered the page that it has loaded has asked for nothing yet. -/
theorem leafed_start {service : Service} (reachable : service.Reachable) (id : ConnectionId)
    {client : Session} (reachable' : client.Reachable) (unfinished : client.finished = false)
    {listId : ListId} (found : service.catalog.find listId = .ok list) (kind : list.kind = .token)
    (version : list.version ≤ maxCount) (room : (list.items.length : Int) ≤ Index.greatest)
    {q : Query} (there : list.hasPage (q.page.getD 0)) :
    client.accepts (service.answer id (.load listId q none)).2
      ∧ Leafed list (q.page.getD 0) (Filling.start service id client listId q) (.single there)
        (list.pageListing (q.page.getD 0)).list (list.pageListing (q.page.getD 0)).window := by
  obtain rfl : list.id = listId :=
    reachable.sound.named listId list (Catalog.find_eq_ok_iff.1 found)
  have answer := Service.answer_anchor found kind room there id none
  have leads := FullList.leads_pageListing room there
  obtain ⟨accepted, leafs, closed, -⟩ := Session.leafs_loaded
    (p := list.pageListing (q.page.getD 0)) reachable' unfinished
    (by rintro _ ⟨⟩; exact version) leads none
  rw [Filling.start, answer]
  refine ⟨accepted, rfl, found, kind, room, leafs, reads_single there, Nat.le_refl _, Nat.le_refl _,
    by simp, by simp, ?_, by simp⟩
  exact fun token => iff_of_false (closed token) (by simp)

/-- A client loads any page of a token list that nobody changes, and registers it. What it loads is
accepted. However turns, fetches and arrivals then follow each other, every request is answered with
a page, and the first answer to each request is accepted, and no later one. The loaded items are
those on pages of the list that follow each other, around the first one, and once there is nothing
more to ask for and nothing outstanding, they are the whole list. -/
theorem leafs_through {service : Service} (reachable : service.Reachable) {id : ConnectionId}
    {client : Session} (reachable' : client.Reachable) (unfinished : client.finished = false)
    {listId : ListId} (found : service.catalog.find listId = .ok list) (kind : list.kind = .token)
    (version : list.version ≤ maxCount) (room : (list.items.length : Int) ≤ Index.greatest)
    {q : Query} (there : list.hasPage (q.page.getD 0)) (moves : List Move) :
    client.accepts (service.answer id (.load listId q none)).2
      ∧ Trace.Throughout step Succeeds (Filling.start service id client listId q) moves
      ∧ Trace.Always step (ShowsLaw list (q.page.getD 0))
        (Filling.start service id client listId q) moves := by
  obtain ⟨accepted, leafed⟩ :=
    leafed_start reachable id reachable' unfinished found kind version room there
  have keeps (f : Filling) (m : Move)
      (known : ∃ p l w, Leafed list (q.page.getD 0) f p l w) :
      ∃ p l w, Leafed list (q.page.getD 0) (step f m) p l w := by
    obtain ⟨p, l, w, leafed⟩ := known
    exact leafed.step m
  refine ⟨accepted, Trace.throughout_of_invariant ?_ keeps ⟨_, _, _, leafed⟩ moves,
    Trace.always_of_invariant ?_ keeps ⟨_, _, _, leafed⟩ moves⟩
  · rintro f m ⟨p, l, w, leafed⟩
    exact leafed.succeeds m
  · rintro f ⟨p, l, w, leafed⟩
    exact leafed.shows

open Network

/-- A client that has loaded the second of three pages wants the third and the first one. The second
request is sent first, and the other one twice. The last answer comes first, the one before it late,
and then it wants more in both directions. -/
def fromTheMiddle : List Move :=
  [.turn .forward, .turn .backward, .turn .forward, .send 1, .send 0, .send 0, .deliver 2,
    .deliver 1, .deliver 0, .turn .forward, .turn .backward]

/-- In this way the client comes to hold all letters, and there is nothing more to ask for. -/
theorem leafs_through_fromTheMiddle :
    let service := pagedService.step (.connect 0)
    let q : Query := { page := some 1 }
    let f := Filling.start service 0 {} "t" q
    ({} : Session).accepts (service.answer 0 (.load "t" q none)).2
    ∧ Trace.Throughout step Succeeds f fromTheMiddle
    ∧ Trace.Always step (ShowsLaw pagedLetters 1) f fromTheMiddle
    ∧ ((fromTheMiddle.foldl step f).client.find? "t").map (·.items) = some pagedLetters.items
    ∧ (fromTheMiddle.foldl step f).asked.length = 2
    ∧ (fromTheMiddle.foldl step f).arrived = ["101", "101", "102"] := by
  obtain ⟨accepted, succeeds, shows⟩ := leafs_through (reachable_pagedService.step (.connect 0))
    Session.reachable_default rfl
    (show pagedService.catalog.find "t" = .ok pagedLetters from rfl) rfl (by decide) (by decide)
    (q := { page := some 1 }) (show pagedLetters.hasPage 1 from by decide) fromTheMiddle
  exact ⟨accepted, succeeds, shows, by decide +kernel, by decide +kernel, by decide +kernel⟩

end Leafing

end ListSync
