import ListSync.Proofs.Leafing
import ListSync.Proofs.Link

/-!
# Pages of a client and its service

A service and one of its clients, which has loaded a page of a token list and has subscribed to the
list. Changes of the list, turns to the next page, fetches and arrivals follow each other in any
order. What the service makes for the client arrives in the order in which it was made, but may be
on its way for any number of moves.

The client keeps track of the list when, whenever no message is on its way, its items are those of
the range that the service tracks for it, and no fetched page repeats held items or leaves out items
in between. That is so exactly when every change spares the tracked range and every fetched page,
put to the items of the range, gives the items of the range that the service then tracks
(`keepsTrack_iff`). A page that begins where the range ends does (`fits_of_adjoins`). But pages are
counted from the start of the list as it is when the fetch arrives, and the client has its token
from before: so a change of the number of items before the page makes the page another one.

As with an index list, the messages on their way lead the client from what it shows now to what the
service tracks (`Tied`).
-/

namespace ListSync

open Producer

/-! ## What a client shows of a token list -/

/-- What is loaded of a token list. -/
structure Folio where
  items : List Item
  version : Version

namespace Folio

/-- The items once a message has arrived. -/
def after (p : Folio) : ServerMessage → Folio
  | .update _ b => ⟨Edit.spliceAll b.edits p.items, b.version⟩
  | .fetched (.page a) _ =>
    match PageToken.parse? a.page with
    | some address => { p with items := Session.pagedItems address.direction p.items a.items }
    | none => p
  | _ => p

/-- A message that a client can follow: a batch of the next version that fits the items, a page, or
a failure. -/
inductive Takes (listId : ListId) (p : Folio) : ServerMessage → Prop
  | update {b : Batch} (own : b.listId = listId) (next : b.version = p.version + 1)
    (inRange : b.InRange) (fits : Edit.AllFit p.items b.edits) : Takes listId p (.update .token b)
  | fetched {a : PageAnswer} {address : PageToken} (own : a.listId = listId)
    (version : a.version = none) (page : a.page = address.text) (fits : address.page ≤ maxCount)
    (beyond : ∀ text ∈ a.next, PageToken.Leads address.direction text)
    (requestId : Option String) : Takes listId p (.fetched (.page a) requestId)
  | failed (message : String) (requestId : Option String) :
    Takes listId p (.error message requestId)

end Folio

namespace PagedLink

/-- What can happen to a service and its client. -/
inductive Move where
  /-- The list is changed. -/
  | change (edits : List (Edit Item)) (inRange : ∀ e ∈ edits, e.InRange)
  /-- The client wants the next page in a direction. -/
  | turn (d : Direction)
  /-- The client sends the request at a place among those that it has taken. -/
  | send (place : Nat)
  /-- The message that has been on its way for longest arrives. -/
  | deliver

/-- Service and client after a move. -/
def step (l : Link) : Move → Link
  | .change edits inRange => l.step (.change edits inRange)
  | .turn d =>
    let (client, requests) := l.client.turn l.listId d
    { l with client, asked := l.asked ++ requests }
  | .send place => l.step (.send place)
  | .deliver => l.step .deliver

/-- What a client sends is a text. Whichever text is read as the fetch, the service processes it. -/
theorem step_send_of_read {l : Link} {place : Nat} {request : FetchRequest} {text : String}
    (asked : l.asked[place]? = some request)
    (read : ClientMessage.read? text = some (.fetch request none)) :
    step l (.send place) =
      { l with
        service := (l.service.process l.id text).1
        asked := l.asked.eraseIdx place
        transit := l.transit ++ [(l.service.process l.id text).2] } :=
  Link.step_send_of_read asked read

/-! ## Keeping track -/

/-- The loaded items are those of the range that the service tracks. -/
structure Agrees (l : Link) (list : FullList) (range : Holding) (loaded : LoadedList) : Prop where
  tracked : l.tracked? = some (list, range)
  found : l.client.find? l.listId = some loaded
  within : 0 ≤ range.start ∧ range.start ≤ range.stop ∧ range.stop ≤ list.items.length
  items : loaded.items = segment list.items range.start.toNat range.stop.toNat

/-- Client and service agree once all messages on their way have arrived. -/
def Agreement (l : Link) : Prop := ∃ list range loaded, Agrees l.settled list range loaded

/-- Items at some positions neither repeat items of a range nor leave out items between the two. -/
structure Seamless (range : Holding) (first n : Nat) : Prop where
  apart : ∀ i : Int, range.start ≤ i → i < range.stop → ¬((first : Int) ≤ i ∧ i < (first + n : Nat))
  whole : ∀ i : Int, min range.start first ≤ i → i < max range.stop (first + n : Nat) →
    (range.start ≤ i ∧ i < range.stop) ∨ ((first : Int) ≤ i ∧ i < (first + n : Nat))

/-- A page as it is in a list when it is fetched: the direction from which it is reached, where it
begins, and what is on it. -/
structure Sheet where
  direction : Direction
  first : Nat
  items : List Item

/-- The page with an address. -/
def sheet (list : FullList) (address : PageToken) : Sheet where
  direction := address.direction
  first := address.page * list.pageSize
  items := list.pageItems address.page

/-- The page that a request asks for, if it is there. -/
def sheet? (list : FullList) : FetchRequest → Option Sheet
  | .page _ _ text => (PageToken.parse? text).bind fun address =>
    if list.hasPage address.page then some (sheet list address) else none
  | .range .. => none

/-- A page that is fetched neither repeats items that are held nor leaves out items between. -/
def Unbroken (l : Link) : Move → Prop
  | .send place => ∀ t ∈ l.tracked?, ∀ request ∈ l.asked[place]?, ∀ page ∈ sheet? t.1 request,
    Seamless t.2 page.first page.items.length
  | _ => True

/-- Client and service agree whenever no message is on its way, and no page that is fetched repeats
held items or leaves out items between. -/
def KeepsTrack (l : Link) (moves : List Move) : Prop :=
  Trace.Always step Agreement l moves ∧ Trace.Throughout step Unbroken l moves

/-- There is a next version of the list, and its items fit into memory all through a batch. -/
def Affordable (l : Link) : Move → Prop
  | .change edits _ => ∀ t ∈ l.tracked?, t.1.version < maxCount ∧ Holding.Roomy t.1.items edits
  | _ => True

instance (l : Link) : (m : Move) → Decidable (Affordable l m)
  | .change edits _ => inferInstanceAs (Decidable (∀ t ∈ l.tracked?,
      t.1.version < maxCount ∧ Holding.Roomy t.1.items edits))
  | .turn _ | .send _ | .deliver => inferInstanceAs (Decidable True)

/-- A page that is put to the items of a range, in its direction, gives the items of the range that
covers both. -/
def Fits (list : FullList) (range : Holding) (page : Sheet) : Prop :=
  Session.pagedItems page.direction (segment list.items range.start.toNat range.stop.toNat)
      page.items
    = segment list.items (range.extend page.first page.items.length).start.toNat
      (range.extend page.first page.items.length).stop.toNat

instance (list : FullList) (range : Holding) (page : Sheet) : Decidable (Fits list range page) :=
  inferInstanceAs (Decidable (_ = _))

/-- A change of the list spares the range that is tracked for the client; a page that is fetched
fits the range. -/
def KeepsPages (l : Link) : Move → Prop
  | .change edits _ => ∀ t ∈ l.tracked?, t.2.spares t.1.items edits
  | .send place => ∀ t ∈ l.tracked?, ∀ request ∈ l.asked[place]?, ∀ page ∈ sheet? t.1 request,
    Fits t.1 t.2 page
  | _ => True

instance (l : Link) : (m : Move) → Decidable (KeepsPages l m)
  | .change edits _ => inferInstanceAs (Decidable (∀ t ∈ l.tracked?, t.2.spares t.1.items edits))
  | .send place => inferInstanceAs (Decidable (∀ t ∈ l.tracked?, ∀ request ∈ l.asked[place]?,
      ∀ page ∈ sheet? t.1 request, Fits t.1 t.2 page))
  | .turn _ | .deliver => inferInstanceAs (Decidable True)

/-! ## Pages and ranges -/

section

variable {list : FullList} {range : Holding} {items : List Item}

/-- A page that is there lies within the list. -/
theorem within_sheet {address : PageToken} (there : list.hasPage address.page) :
    (sheet list address).first + (sheet list address).items.length ≤ list.items.length
      ∧ (sheet list address).items = segment list.items (sheet list address).first
        ((sheet list address).first + (sheet list address).items.length) := by
  have start := list.start_le_of_hasPage there
  exact ⟨Nat.le_trans (Nat.le_of_eq (FullList.stop_pageItems start)) (Nat.min_le_right ..),
    FullList.segment_pageItems start⟩

/-- A request for a page of the list brings that page if it is there. -/
theorem sheet?_eq_some_iff {token : CorrelationToken} {listId : ListId} {address : PageToken}
    (fits : address.page ≤ maxCount) {page : Sheet} :
    sheet? list (.page token listId address.text) = some page
      ↔ list.hasPage address.page ∧ sheet list address = page := by
  rw [sheet?, PageToken.parse?_text fits, Option.bind_some]
  split
  · rename_i there
    rw [Option.some.injEq, and_iff_right there]
  · rename_i missing
    exact ⟨nofun, fun ⟨there, _⟩ => absurd there missing⟩

/-- A page that fits a range neither repeats items of it nor leaves out items between. -/
theorem seamless_of_fits (holds : range.Holds list.items items) {page : Sheet}
    (within : page.first + page.items.length ≤ list.items.length)
    (room : (list.items.length : Int) ≤ Index.greatest) (fits : Fits list range page) :
    Seamless range page.first page.items.length := by
  obtain ⟨low, ordered, high, -⟩ := Holding.holds_iff.1 holds
  have lengths := congrArg List.length fits
  have both (d : Direction) (held : List Item) :
      (Session.pagedItems d held page.items).length = held.length + page.items.length := by
    cases d with
    | forward => exact List.length_append
    | backward => exact List.length_append.trans (Nat.add_comm ..)
  rw [both, Holding.extend_eq range (by omega)] at lengths
  simp only [Producer.segment, List.length_drop, List.length_take] at lengths
  constructor <;> omega

/-- A page fits a range exactly when it leads from the items of the range to those of the range that
covers both. -/
theorem fits_iff (holds : range.Holds list.items items) {page : Sheet}
    (within : page.first + page.items.length ≤ list.items.length)
    (room : (list.items.length : Int) ≤ Index.greatest) :
    Fits list range page ↔ (range.extend page.first page.items.length).Holds list.items
      (Session.pagedItems page.direction items page.items) := by
  obtain ⟨low, ordered, high, rfl⟩ := Holding.holds_iff.1 holds
  rw [Holding.holds_iff, Fits]
  have extended := range.extend_eq
    (show ((page.first + page.items.length : Nat) : Int) ≤ Index.greatest by omega)
  have bounds : 0 ≤ (range.extend page.first page.items.length).start
      ∧ (range.extend page.first page.items.length).start
        ≤ (range.extend page.first page.items.length).stop
      ∧ (range.extend page.first page.items.length).stop ≤ list.items.length := by
    rw [extended]
    dsimp only
    omega
  exact ⟨fun fits => ⟨bounds.1, bounds.2.1, bounds.2.2, fits⟩, fun holds => holds.2.2.2⟩

/-- A page that begins where a range ends, or ends where it begins if it is reached from there,
fits. -/
theorem fits_of_adjoins (holds : range.Holds list.items items) {page : Sheet}
    (within : page.first + page.items.length ≤ list.items.length)
    (cut : page.items = segment list.items page.first (page.first + page.items.length))
    (room : (list.items.length : Int) ≤ Index.greatest)
    (adjoins : match page.direction with
      | .forward => range.stop = page.first
      | .backward => range.start = (page.first + page.items.length : Nat)) :
    Fits list range page := by
  obtain ⟨low, ordered, high, -⟩ := Holding.holds_iff.1 holds
  rw [Fits, Holding.extend_eq range (by omega)]
  dsimp only
  -- the hull of two ranges that adjoin is their union, so the items are those of one segment
  cases d : page.direction with
  | forward =>
    rw [d] at adjoins
    dsimp only at adjoins
    have first : range.stop.toNat = page.first := by omega
    have start : (min range.start (page.first : Int)).toNat = range.start.toNat := by omega
    have stop : (max range.stop ((page.first + page.items.length : Nat) : Int)).toNat
        = page.first + page.items.length := by omega
    rw [Session.pagedItems, start, stop, first, ← segment_append list.items (p := range.start.toNat)
      (by omega) (Nat.le_add_right page.first page.items.length), ← cut]
  | backward =>
    rw [d] at adjoins
    dsimp only at adjoins
    have last : range.start.toNat = page.first + page.items.length := by omega
    have start : (min range.start (page.first : Int)).toNat = page.first := by omega
    have stop : (max range.stop ((page.first + page.items.length : Nat) : Int)).toNat
        = range.stop.toNat := by omega
    rw [Session.pagedItems, start, stop, last, ← segment_append list.items
      (Nat.le_add_right page.first page.items.length) (r := range.stop.toNat) (by omega), ← cut]

end

/-! ## What a client will show -/

/-- The tokens of the answers on their way, and of the requests that are still to be sent. -/
def waits (l : Link) : List CorrelationToken :=
  l.transit.flatMap (fun m => m.pages.map (·.token)) ++ l.asked.map (·.token)

/-- The client shows the items of a folio, can follow all messages on their way from it, and waits
for the answers to what it has asked for. What it has ever asked for is known. -/
structure Led (l : Link) (log : List FetchRequest) (loaded : LoadedList) (w : TokenWindow)
    (p : Folio) : Prop where
  leafs : l.client.Leafs l.listId log loaded w
  items : loaded.items = p.items
  version : l.client.version? l.listId = some p.version
  distinct : (waits l).Nodup
  pending : ∀ token ∈ waits l, l.client.Open l.listId token
  asks : ∀ r ∈ l.asked, r ∈ log ∧ ∃ address : PageToken,
    r = .page r.token l.listId address.text ∧ address.page ≤ maxCount
  answers : ∀ m ∈ l.transit, ∀ a ∈ m.pages, FetchRequest.page a.token l.listId a.page ∈ log
  takes : Trace.Throughout Folio.after (Folio.Takes l.listId) p l.transit

variable {l : Link} {log : List FetchRequest} {loaded : LoadedList} {w : TokenWindow} {p : Folio}

/-- The client follows the message that arrives. -/
theorem Led.deliver {m : ServerMessage} {rest : List ServerMessage}
    (led : Led { l with transit := m :: rest } log loaded w p) :
    ∃ loaded' w', Led { l with client := l.client.receive m, transit := rest } log loaded' w'
      (p.after m) := by
  obtain ⟨service, id, listId, client, asked, transit⟩ := l
  obtain ⟨leafs, items, version, distinct, pending, asks, answers, takes, later⟩ := led
  have answers' : ∀ m ∈ rest, ∀ a ∈ m.pages, FetchRequest.page a.token listId a.page ∈ log :=
    fun m hm => answers m (List.mem_cons_of_mem _ hm)
  have split : waits ⟨service, id, listId, client, asked, m :: rest⟩
      = m.pages.map (·.token) ++ waits ⟨service, id, listId, client, asked, rest⟩ := by
    simp only [waits, List.flatMap_cons, List.append_assoc]
  rw [split] at distinct pending
  have distinct' := (List.nodup_append.1 distinct).2.1
  have pending' : ∀ token ∈ waits ⟨service, id, listId, client, asked, rest⟩,
      client.Open listId token := fun token waited => pending token (List.mem_append_right _ waited)
  -- what has arrived is a batch, a page, or a refusal; only a page settles a token
  cases takes with
  | update own next inRange fits =>
    subst own
    obtain ⟨leafs', opened, version'⟩ := leafs.edit version next inRange (items ▸ fits)
    refine ⟨_, w, leafs', ?_, version', distinct', ?_, asks, answers', later⟩
    · rw [items]
      rfl
    · exact fun token waited => (opened token).2 (pending' token waited)
  | @fetched a address own none page fits beyond requestId =>
    subst own
    have taken := answers _ List.mem_cons_self a List.mem_cons_self
    obtain ⟨-, -, opened, versions, leafs'⟩ := leafs.join none page fits beyond taken
      (pending a.token (List.mem_append_left _ List.mem_cons_self)) requestId
    have shown : p.after (.fetched (.page a) requestId)
        = { p with items := Session.pagedItems address.direction p.items a.items } := by
      rw [Folio.after, page, PageToken.parse?_text fits]
    rw [shown] at later ⊢
    refine ⟨_, _, leafs', ?_, ?_, distinct', ?_, asks, answers', later⟩
    · rw [items]
    · rw [Session.version?, versions]
      exact version
    · intro token waited
      refine (opened token).2 ⟨pending' token waited, ?_⟩
      rintro rfl
      exact (List.nodup_append.1 distinct).2.2 a.token List.mem_cons_self a.token waited rfl
  | failed message requestId =>
    exact ⟨loaded, w, leafs, items, version, distinct', pending', asks, answers', later⟩

/-- Once all messages have arrived, the client shows what they lead to. -/
theorem Led.settled (led : Led l log loaded w p) :
    ∃ loaded' w', Led l.settled log loaded' w' (l.transit.foldl Folio.after p) := by
  obtain ⟨service, id, listId, client, asked, transit⟩ := l
  induction transit generalizing client loaded w p with
  | nil => exact ⟨loaded, w, led⟩
  | cons m rest ih =>
    obtain ⟨loaded', w', led'⟩ :=
      Led.deliver (l := ⟨service, id, listId, client, asked, rest⟩) led
    exact ih _ led'

/-- One more message is on its way. What it answers is one of the requests that were still to be
sent. -/
theorem Led.push (led : Led l log loaded w p) (service : Service) {asked : List FetchRequest}
    {m : ServerMessage} (sent : ∀ r ∈ asked, r ∈ l.asked)
    (moved : (m.pages.map (·.token) ++ asked.map (·.token)).Subperm (l.asked.map (·.token)))
    (answers : ∀ a ∈ m.pages, FetchRequest.page a.token l.listId a.page ∈ log)
    (takes : (l.transit.foldl Folio.after p).Takes l.listId m) :
    Led { l with service, asked, transit := l.transit ++ [m] } log loaded w p := by
  have fewer :
      (waits { l with service, asked, transit := l.transit ++ [m] }).Subperm (waits l) := by
    rw [waits, List.flatMap_append, List.flatMap_singleton, List.append_assoc]
    exact (List.subperm_append_left _).2 moved
  refine ⟨led.leafs, led.items, led.version, ?_, ?_, ?_, ?_, led.takes.concat takes⟩
  · obtain ⟨same, perm, sub⟩ := fewer
    exact perm.nodup_iff.1 (led.distinct.sublist sub)
  · exact fun token waited => led.pending token (fewer.subset waited)
  · exact fun r hr => led.asks r (sent r hr)
  · exact List.forall_mem_append.2 ⟨led.answers, List.forall_mem_singleton.2 answers⟩

/-- To want a page is to wait for the answers to new requests. -/
theorem Led.turn (led : Led l log loaded w p) (d : Direction) :
    ∃ log' loaded' w', Led (step l (.turn d)) log' loaded' w' p := by
  generalize turned : l.client.turn l.listId d = result
  obtain ⟨next, new⟩ := result
  obtain ⟨w', leafs, pages, opened, versions, -⟩ := led.leafs.turn turned
  have stepped : step l (.turn d) = { l with client := next, asked := l.asked ++ new } := by
    rw [step, turned]
  have split : waits { l with client := next, asked := l.asked ++ new }
      = waits l ++ new.map (·.token) := by
    simp only [waits, List.map_append, List.append_assoc]
  rw [stepped]
  refine ⟨log ++ new, _, w', leafs, led.items, ?_, ?_, ?_, ?_, ?_, led.takes⟩
  · rw [Session.version?, versions]
    exact led.version
  · rw [split, List.nodup_append]
    have distinct := leafs.logged.distinct
    rw [List.map_append, List.nodup_append] at distinct
    refine ⟨led.distinct, distinct.2.1, ?_⟩
    -- what the client waits for was asked for before
    intro token waited token' asked
    obtain ⟨r, pending, named⟩ := led.pending token waited
    refine distinct.2.2 token ?_ token' asked
    rw [← named, ← r.token_toFetch]
    exact List.mem_map_of_mem (led.leafs.logged.pending r pending)
  · rw [split]
    intro token waited
    refine (opened token).2 ?_
    exact (List.mem_append.1 waited).imp (led.pending token) id
  · refine List.forall_mem_append.2 ⟨fun r hr => ?_, fun r hr => ?_⟩
    · obtain ⟨known, asks⟩ := led.asks r hr
      exact ⟨List.mem_append_left _ known, asks⟩
    · obtain ⟨page, d', made, adjacent⟩ := pages r hr
      obtain ⟨number, fits, rfl⟩ := led.leafs.leads d' page adjacent
      exact ⟨List.mem_append_right _ hr, PageToken.toward d' number, made,
        (PageToken.page_toward ..).symm ▸ fits⟩
  · exact fun m hm a ha => List.mem_append_left _ (led.answers m hm a ha)

/-! ## Client and service -/

/-- The messages on their way lead the client to what the service tracks. -/
structure Tied (l : Link) (log : List FetchRequest) (loaded : LoadedList) (w : TokenWindow)
    (list : FullList) (range : Holding) (p : Folio) : Prop extends Led l log loaded w p where
  serves : l.service.Serves l.listId l.id list range []
  kind : list.kind = .token
  room : (list.items.length : Int) ≤ Index.greatest
  holds : range.Holds list.items (l.transit.foldl Folio.after p).items
  current : (l.transit.foldl Folio.after p).version = list.version

variable {list : FullList} {range : Holding}

/-- A client agrees with its service exactly when the messages on their way lead it to the items of
the range that the service tracks. -/
theorem Led.agreement_iff (led : Led l log loaded w p) (tracked : l.tracked? = some (list, range)) :
    Agreement l ↔ range.Holds list.items (l.transit.foldl Folio.after p).items := by
  obtain ⟨loaded', w', led'⟩ := led.settled
  rw [Holding.holds_iff, ← led'.items]
  constructor
  · rintro ⟨list', range', loaded'', tracked', found, ⟨low, ordered, high⟩, items⟩
    obtain ⟨rfl, rfl⟩ := Prod.mk.inj (Option.some.inj (tracked.symm.trans tracked'))
    obtain rfl := Option.some.inj (led'.leafs.found.symm.trans found)
    exact ⟨low, ordered, high, items⟩
  · rintro ⟨low, ordered, high, items⟩
    exact ⟨list, range, loaded', tracked, led'.leafs.found, ⟨low, ordered, high⟩, items⟩

theorem Tied.tracked (tied : Tied l log loaded w list range p) :
    l.tracked? = some (list, range) := Link.tracked_of_serves tied.serves

/-- A link that is tied is in agreement. -/
theorem Tied.agreement (tied : Tied l log loaded w list range p) : Agreement l :=
  (tied.agreement_iff tied.tracked).2 tied.holds

/-! ## Fetches -/

/-- What a fetch of a page does, once it is sent: the page is on its way and the tracked range is
extended to it, if it is there. If it is not, a failure is on its way, and nothing else changes. -/
theorem Tied.sent (tied : Tied l log loaded w list range p) {place : Nat} {request : FetchRequest}
    (asked : l.asked[place]? = some request) :
    ∃ l', step l (.send place) = l' ∧ Led l' log loaded w p ∧
      ((sheet? list request = none ∧ l'.service.Serves l'.listId l'.id list range []
          ∧ l'.transit.foldl Folio.after p = l.transit.foldl Folio.after p)
        ∨ ∃ address, list.hasPage address.page ∧ sheet? list request = some (sheet list address)
          ∧ l'.service.Serves l'.listId l'.id list (range.extend (sheet list address).first
            (sheet list address).items.length) []
          ∧ l'.transit.foldl Folio.after p = { l.transit.foldl Folio.after p with
            items := Session.pagedItems (sheet list address).direction
              (l.transit.foldl Folio.after p).items (sheet list address).items }) := by
  obtain ⟨known, address, asks, fits⟩ := tied.asks request (List.mem_of_getElem? asked)
  have named := tied.serves.named
  have backing : l.service.catalog.find list.id = .ok list := named ▸ tied.serves.backing
  -- the token of the request is that of the answer, if there is one
  have moved : (request.token :: (l.asked.eraseIdx place).map (·.token)).Subperm
      (l.asked.map (·.token)) := (Link.perm_tokens_eraseIdx asked).subperm
  have sent : ∀ r ∈ l.asked.eraseIdx place, r ∈ l.asked := fun r => List.mem_of_mem_eraseIdx
  generalize request.token = token at asks moved
  subst asks
  by_cases there : list.hasPage address.page
  · have answer :=
      Service.answer_page backing tied.kind tied.room there l.id token none
    have stepped : step l (.send place) = { l with
        service := l.service.withHub (·.extend l.id l.listId
          ((address.page * list.pageSize : Nat) : Int) (list.pageItems address.page).length)
        asked := l.asked.eraseIdx place
        transit := l.transit ++ [.fetched (.page (list.pageAnswer token address)) none] } := by
      rw [named] at answer
      simp only [step, Link.step, asked, answer]
    have beyond : ∀ text ∈ list.beyond address, PageToken.Leads address.direction text := by
      rw [list.beyond_eq]
      exact fun _ next => FullList.leads_adjacent tied.room there next
    refine ⟨_, stepped, tied.toLed.push _ sent moved ?_ ?_, .inr ⟨address, there, ?_, ?_, ?_⟩⟩
    · exact List.forall_mem_singleton.2 known
    · exact .fetched (a := list.pageAnswer token address) named rfl rfl fits beyond none
    · exact (sheet?_eq_some_iff fits).2 ⟨there, rfl⟩
    · exact tied.serves.extended ..
    · simp only [List.foldl_append, List.foldl_cons, List.foldl_nil, Folio.after,
        FullList.pageAnswer, PageToken.parse?_text fits]
      rfl
  · have answer := Service.answer_noPage backing tied.kind fits there l.id token none
    have stepped : step l (.send place) = { l with
        service := l.service
        asked := l.asked.eraseIdx place
        transit := l.transit
          ++ [.error (Failure.refused (.invalidPageToken address.text)).message none] } := by
      rw [named] at answer
      simp only [step, Link.step, asked, answer]
    have none : sheet? list (.page token l.listId address.text) = none := by
      rw [Option.eq_none_iff_forall_not_mem]
      exact fun page found => there ((sheet?_eq_some_iff fits).1 found).1
    refine ⟨_, stepped, tied.toLed.push _ sent ((List.sublist_cons_self ..).subperm.trans moved)
      (by simp [ServerMessage.pages]) (.failed ..), .inl ⟨none, tied.serves, ?_⟩⟩
    simp only [List.foldl_append, List.foldl_cons, List.foldl_nil, Folio.after]

/-- A fetch keeps client and service tied if the page fits, and only then leaves them in agreement.
-/
theorem Tied.send (tied : Tied l log loaded w list range p) {place : Nat} {request : FetchRequest}
    (asked : l.asked[place]? = some request) :
    ((∀ page ∈ sheet? list request, Fits list range page)
        → ∃ range', Tied (step l (.send place)) log loaded w list range' p)
      ∧ (Agreement (step l (.send place)) →
        ∀ page ∈ sheet? list request, Fits list range page) := by
  obtain ⟨l', sent, led, ⟨none, serves, shown⟩ | ⟨address, there, some, serves, shown⟩⟩ :=
    tied.sent asked
  · rw [sent, none]
    refine ⟨fun _ => ⟨range, led, serves, tied.kind, tied.room, ?_, ?_⟩, fun _ _ => nofun⟩
    · rw [shown]
      exact tied.holds
    · rw [shown]
      exact tied.current
  · have fits := fits_iff tied.holds (within_sheet there).1 tied.room
    rw [sent, some]
    constructor
    · intro fit
      refine ⟨_, led, serves, tied.kind, tied.room, ?_, ?_⟩
      · rw [shown]
        exact fits.1 (fit _ rfl)
      · rw [shown]
        exact tied.current
    · rintro agreement _ ⟨⟩
      have holds := (led.agreement_iff (Link.tracked_of_serves serves)).1 agreement
      rw [shown] at holds
      exact fits.2 holds

/-! ## Changes of the list -/

/-- A change without edits changes nothing. -/
theorem Tied.change_nil (tied : Tied l log loaded w list range p)
    (inRange : ∀ e ∈ [], Edit.InRange e) :
    Tied (step l (.change [] inRange)) log loaded w list range p := by
  obtain ⟨service, stepped, serves⟩ := Link.step_change inRange tied.serves
  rw [step, stepped, List.append_nil]
  exact { tied with serves }

/-- A change keeps client and service tied if it spares the tracked range, and only then leaves them
in agreement. -/
theorem Tied.change (tied : Tied l log loaded w list range p) {edits : List (Edit Item)}
    (given : edits ≠ []) (inRange : ∀ e ∈ edits, e.InRange) (version : list.version < maxCount)
    (roomy : Holding.Roomy list.items edits) :
    (range.spares list.items edits → ∃ range',
        Tied (step l (.change edits inRange)) log loaded w (list.edited edits) range' p)
      ∧ (Agreement (step l (.change edits inRange)) → range.spares list.items edits) := by
  obtain ⟨service, stepped, serves⟩ := Link.step_change inRange (tied.serves.change given)
  rw [step, stepped, tied.kind]
  constructor
  · intro spared
    obtain ⟨mid, holds, follows⟩ :=
      Holding.rebaseAll_holds edits tied.holds inRange roomy spared
    rw [← follows.items] at holds
    have takes : (l.transit.foldl Folio.after p).Takes l.listId (.update .token
        ⟨l.listId, list.version + 1, (range.rebaseAll (Edit.survivors list.items edits)).2⟩) :=
      .update rfl (congrArg (· + 1) tied.current.symm) ⟨version, follows.inRange⟩ follows.fits
    refine ⟨_, tied.toLed.push service (fun _ => id) (List.Subperm.refl _)
      (fun a ha => absurd ha List.not_mem_nil) takes, serves, tied.kind,
      Int.le_of_lt roomy.last, ?_, ?_⟩
    · dsimp only
      rw [List.foldl_append]
      exact holds
    · dsimp only
      rw [List.foldl_append]
      rfl
  · rintro ⟨list', range', loaded', agrees⟩
    -- what is tracked is a function of the service, so the agreement is about the rebased range
    have tracked := (Link.tracked_of_serves (l := { l with service }) serves).symm.trans
      agrees.tracked
    obtain ⟨rfl, rfl⟩ := Prod.mk.inj (Option.some.inj tracked)
    exact Holding.spares_of_within edits tied.holds inRange roomy agrees.within.2.2

/-! ## Runs -/

/-- A move that keeps the pages leaves the client on its way to what the service tracks. -/
theorem Tied.step (tied : Tied l log loaded w list range p) {m : Move}
    (affordable : Affordable l m) (keeps : KeepsPages l m) :
    ∃ log' loaded' w' list' range' p', Tied (step l m) log' loaded' w' list' range' p' := by
  cases m with
  | turn d =>
    obtain ⟨log', loaded', w', led⟩ := tied.toLed.turn d
    exact ⟨log', loaded', w', list, range, p, led, tied.serves, tied.kind, tied.room, tied.holds,
      tied.current⟩
  | deliver =>
    obtain ⟨service, id, listId, client, asked, transit⟩ := l
    cases transit with
    | nil => exact ⟨_, _, _, _, _, _, tied⟩
    | cons m rest =>
      obtain ⟨loaded', w', led⟩ :=
        Led.deliver (l := ⟨service, id, listId, client, asked, rest⟩) tied.toLed
      exact ⟨_, _, _, _, _, _, led, tied.serves, tied.kind, tied.room, tied.holds, tied.current⟩
  | send place =>
    rcases asked : l.asked[place]? with _ | request
    · have same : PagedLink.step l (.send place) = l := by
        simp only [PagedLink.step, Link.step, asked]
      exact ⟨_, _, _, _, _, _, same ▸ tied⟩
    · obtain ⟨range', sent⟩ := (tied.send asked).1 (keeps _ tied.tracked request asked)
      exact ⟨_, _, _, _, _, _, sent⟩
  | change edits inRange =>
    by_cases given : edits = []
    · subst given
      exact ⟨_, _, _, _, _, _, tied.change_nil inRange⟩
    · obtain ⟨version, roomy⟩ := affordable _ tied.tracked
      obtain ⟨range', changed⟩ :=
        (tied.change given inRange version roomy).1 (keeps _ tied.tracked)
      exact ⟨_, _, _, _, _, _, changed⟩

/-- A move that leaves client and service in agreement keeps the pages. -/
theorem Tied.keepsPages (tied : Tied l log loaded w list range p) {m : Move}
    (affordable : Affordable l m) (agreement : Agreement (PagedLink.step l m)) :
    KeepsPages l m := by
  cases m with
  | turn d => trivial
  | deliver => trivial
  | send place =>
    intro t h request asked
    obtain rfl := Option.some.inj (tied.tracked.symm.trans h)
    exact (tied.send asked).2 agreement
  | change edits inRange =>
    intro t h
    by_cases given : edits = []
    · subst given
      rfl
    · obtain rfl := Option.some.inj (tied.tracked.symm.trans h)
      obtain ⟨version, roomy⟩ := affordable _ tied.tracked
      exact (tied.change given inRange version roomy).2 agreement

/-- A page that fits the tracked range neither repeats items of it nor leaves out items between. -/
theorem Tied.unbroken (tied : Tied l log loaded w list range p) {m : Move}
    (keeps : KeepsPages l m) : Unbroken l m := by
  cases m with
  | send place =>
    intro t h request asked page found
    have fits := keeps t h request asked page found
    obtain rfl := Option.some.inj (tied.tracked.symm.trans h)
    obtain ⟨-, address, asks, bound⟩ := tied.asks request (List.mem_of_getElem? asked)
    rw [asks] at found
    obtain ⟨there, rfl⟩ := (sheet?_eq_some_iff bound).1 found
    exact seamless_of_fits tied.holds (within_sheet there).1 tied.room fits
  | _ => trivial

/-- What holds of one move holds of a run. -/
theorem Tied.keepsTrack_iff_throughout (tied : Tied l log loaded w list range p)
    {moves : List Move} (affordable : Trace.Throughout PagedLink.step Affordable l moves) :
    KeepsTrack l moves ↔ Trace.Throughout PagedLink.step KeepsPages l moves := by
  have known : ∃ log loaded w list range p, Tied l log loaded w list range p :=
    ⟨_, _, _, _, _, _, tied⟩
  have keeps (l : Link) (m : Move) (known : ∃ log loaded w list range p, Tied l log loaded w list
      range p) (affordable : Affordable l m) (keeps : KeepsPages l m) :
      ∃ log loaded w list range p, Tied (PagedLink.step l m) log loaded w list range p := by
    obtain ⟨_, _, _, _, _, _, tied⟩ := known
    exact tied.step affordable keeps
  have always : Trace.Always PagedLink.step Agreement l moves
      ↔ Trace.Throughout PagedLink.step KeepsPages l moves := by
    refine Trace.always_iff_throughout_of ?_ keeps ?_ known affordable
    · rintro l ⟨_, _, _, _, _, _, tied⟩
      exact tied.agreement
    · rintro l m ⟨_, _, _, _, _, _, tied⟩ affordable agreement
      exact tied.keepsPages affordable agreement
  refine ⟨fun track => always.1 track.1, fun kept => ⟨always.2 kept, ?_⟩⟩
  refine Trace.Throughout.imp keeps ?_ known affordable kept
  rintro l m ⟨_, _, _, _, _, _, tied⟩ - kept
  exact tied.unbroken kept

/-! ## Joining -/

/-- The items with which a page is loaded are those of the range that the service tracks then. -/
theorem holds_pageItems (room : (list.items.length : Int) ≤ Index.greatest) {page : Nat}
    (there : list.hasPage page) :
    (Holding.ofCount ((page * list.pageSize : Nat) : Int) (list.pageItems page).length).Holds
      list.items (list.pageItems page) := by
  have start := list.start_le_of_hasPage there
  have stop := FullList.stop_pageItems start
  rw [Holding.ofCount_eq (by omega), Holding.holds_iff]
  refine ⟨Int.natCast_nonneg _, Int.ofNat_le.2 (Nat.le_add_right ..), Int.ofNat_le.2 ?_,
    FullList.segment_pageItems start⟩
  omega

/-- A client that has loaded a page of a list and has subscribed shows what the service tracks. -/
theorem tied_join {service : Service} (sound : service.Sound) {client : Session}
    (reachable : client.Reachable) (unfinished : client.finished = false) {listId : ListId}
    (found : service.catalog.find listId = .ok list) (kind : list.kind = .token)
    (version : list.version ≤ maxCount) (room : (list.items.length : Int) ≤ Index.greatest)
    {q : Query} (there : list.hasPage (q.page.getD 0)) (id : ConnectionId) :
    Tied (Link.join service id client listId q) [] (list.pageListing (q.page.getD 0)).list
      (list.pageListing (q.page.getD 0)).window list
      (.ofCount ((q.page.getD 0 * list.pageSize : Nat) : Int)
        (list.pageItems (q.page.getD 0)).length)
      ⟨list.pageItems (q.page.getD 0), list.version⟩ := by
  obtain rfl : list.id = listId := sound.named listId list (Catalog.find_eq_ok_iff.1 found)
  obtain ⟨answer, serves⟩ := Service.serves_anchor sound found kind room there id
  have leads := FullList.leads_pageListing room there
  obtain ⟨-, leafs, -, current⟩ := Session.leafs_loaded
    (p := list.pageListing (q.page.getD 0)) reachable unfinished
    (by rintro _ ⟨⟩; exact version) leads none
  rw [← answer] at leafs current
  exact ⟨⟨leafs, rfl, current, by simp [waits, Link.join], by simp [waits, Link.join],
    by simp [Link.join], by simp [Link.join], trivial⟩, serves, kind, room,
    holds_pageItems room there, rfl⟩

/-- A client that has loaded a page of a token list and has subscribed to the list keeps track of
it, at the start of a run and after each of its moves, exactly when every change spares the range
that is tracked for the client, and every page that is fetched fits the range. -/
theorem keepsTrack_iff {service : Service} (reachable : service.Reachable) {client : Session}
    (reachable' : client.Reachable) (unfinished : client.finished = false) {listId : ListId}
    (found : service.catalog.find listId = .ok list) (kind : list.kind = .token)
    (version : list.version ≤ maxCount) (room : (list.items.length : Int) ≤ Index.greatest)
    {q : Query} (there : list.hasPage (q.page.getD 0)) (id : ConnectionId) {moves : List Move}
    (affordable : Trace.Throughout PagedLink.step Affordable
      (Link.join service id client listId q) moves) :
    KeepsTrack (Link.join service id client listId q) moves
      ↔ Trace.Throughout PagedLink.step KeepsPages (Link.join service id client listId q) moves :=
  (tied_join reachable.sound reachable' unfinished found kind version room there
    id).keepsTrack_iff_throughout affordable

open Network

/-- A client has loaded the first of three pages. -/
def firstPage : Link := Link.join pagedService 0 {} "t" { page := some 0 }

/-- The list is changed by one edit. -/
def edit (e : Edit Item) (inRange : e.InRange) : Move :=
  .change [e] (List.forall_mem_singleton.2 inRange)

/-- An item is put to the front of the list. -/
def putFirst : Move := edit (.insert 0 (.str "x")) ⟨by decide, by rintro i n ⟨⟩⟩

/-- The first item of the list is taken out. -/
def cutFirst : Move := edit (.delete 0) ⟨by decide, by rintro i n ⟨⟩⟩

/-- The first item of the list becomes another one. -/
def changeFirst : Move := edit (.set 0 (.str "x")) ⟨by decide, by rintro i n ⟨⟩⟩

/-- A client that has loaded the first page keeps track when its first item becomes another one
while the next page is on its way. -/
theorem keepsTrack_changeFirst :
    KeepsTrack firstPage [.turn .forward, .send 0, changeFirst, .deliver, .deliver] :=
  (keepsTrack_iff reachable_pagedService Session.reachable_default rfl
    (show pagedService.catalog.find "t" = .ok pagedLetters from rfl) rfl (by decide) (by decide)
    (q := { page := some 0 }) (show pagedLetters.hasPage 0 from by decide) 0
    (by decide +kernel)).2 (by decide +kernel)

/-- When an item is put to the front, the next page begins with an item that the client holds, and
the client comes to hold it twice. When the first item is taken out, the next page begins behind an
item that the client does not hold, and the client comes to hold items from both sides of it. -/
theorem losesTrack_firstPage :
    pagedService.Reachable ∧ Session.Reachable {}
    ∧ ¬KeepsTrack firstPage [putFirst, .deliver, .turn .forward, .send 0, .deliver]
    ∧ (([putFirst, .deliver, .turn .forward, .send 0, .deliver].foldl step firstPage).client.find?
        "t").map (·.items) = some (["x", "a", "b", "b", "c"].map .str)
    ∧ ([putFirst, .deliver, .turn .forward, .send 0, .deliver].foldl step firstPage).tracked?.map
        (·.2) = some ⟨0, 4⟩
    ∧ ¬KeepsTrack firstPage [cutFirst, .deliver, .turn .forward, .send 0, .deliver]
    ∧ (([cutFirst, .deliver, .turn .forward, .send 0, .deliver].foldl step firstPage).client.find?
        "t").map (·.items) = some (["b", "d", "e"].map .str)
    ∧ ([cutFirst, .deliver, .turn .forward, .send 0, .deliver].foldl step firstPage).tracked?.map
        (·.2) = some ⟨0, 4⟩ := by
  have tied := tied_join reachable_pagedService.sound Session.reachable_default rfl
    (show pagedService.catalog.find "t" = .ok pagedLetters from rfl) rfl (by decide) (by decide)
    (q := { page := some 0 }) (show pagedLetters.hasPage 0 from by decide) 0
  refine ⟨reachable_pagedService, Session.reachable_default, ?_, by decide +kernel,
    by decide +kernel, ?_, by decide +kernel, by decide +kernel⟩
  · exact mt (tied.keepsTrack_iff_throughout (by decide +kernel)).1 (by decide +kernel)
  · exact mt (tied.keepsTrack_iff_throughout (by decide +kernel)).1 (by decide +kernel)

end PagedLink

end ListSync
