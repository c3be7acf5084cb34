import ListSync.Proofs.Producer.Serving
import ListSync.Proofs.Producer.TokenText

/-!
# A token list in pages

A page is the segment of a list that its number says (`FullList.pageItems_eq`), and pages that
follow each other are one segment (`leaves_eq`). A page is there exactly when it begins before the
end of the list, or is the first one of an empty list (`hasPage_iff`).

A request that names a page in the way the producer does is answered with the items on it as the
list is then, and the range that is tracked for the connection is extended to where they are
(`Service.answer_page`). A request for a page that is not there fails and changes nothing
(`Service.answer_noPage`).
-/

namespace ListSync.Producer

namespace PageToken

/-- The direction in which the page beyond one lies. -/
def direction : PageToken → Direction
  | backward _ => .backward
  | anchor _ | forward _ => .forward

/-- The token by which a page is reached in a direction. -/
def toward : Direction → Nat → PageToken
  | .forward => forward
  | .backward => backward

/-- A token that reaches a page addresses that page, from either side. -/
@[simp]
theorem page_toward (d : Direction) (page : Nat) : (toward d page).page = page := by
  cases d <;> rfl

/-- The page beyond one lies in the direction in which that one was reached. -/
@[simp]
theorem direction_toward (d : Direction) (page : Nat) : (toward d page).direction = d := by
  cases d <;> rfl

end PageToken

namespace FullList

variable {l : FullList}

/-! ## Where pages are -/

/-- A page with items on it begins before the end of the list. -/
theorem lt_pageCount_iff (l : FullList) {page : Nat} :
    page < l.pageCount ↔ page * l.pageSize < l.items.length := by
  have pos := l.pageSize_pos
  rw [pageCount, Nat.lt_iff_add_one_le, Nat.le_div_iff_mul_le pos, Nat.add_one_mul]
  omega

/-- A page is there exactly when it begins before the end of the list, or is the first one of an
empty list. -/
theorem hasPage_iff (l : FullList) (page : Nat) :
    l.hasPage page ↔ page * l.pageSize < l.items.length ∨ page = 0 ∧ l.items = [] := by
  rw [hasPage, Bool.or_eq_true, decide_eq_true_eq, l.lt_pageCount_iff]
  simp

/-- Each page that is counted is there. -/
theorem hasPage_of_lt {page : Nat} (counted : page < l.pageCount) : l.hasPage page := by
  rw [hasPage, decide_eq_true counted, Bool.true_or]

/-- All pages before one that is there are there. -/
theorem hasPage_of_le {page other : Nat} (there : l.hasPage page) (before : other ≤ page) :
    l.hasPage other := by
  rcases (l.hasPage_iff page).1 there with begins | ⟨rfl, -⟩
  · exact (l.hasPage_iff other).2 (.inl (Nat.lt_of_le_of_lt (Nat.mul_le_mul_right _ before) begins))
  · exact Nat.le_zero.1 before ▸ there

/-- A page that is there begins within the list. -/
theorem start_le_of_hasPage {page : Nat} (there : l.hasPage page) :
    page * l.pageSize ≤ l.items.length := by
  rcases (l.hasPage_iff page).1 there with before | ⟨rfl, -⟩
  · exact Nat.le_of_lt before
  · rw [Nat.zero_mul]
    exact Nat.zero_le _

/-- A page that is there has a number that its token can carry. -/
theorem page_le_of_hasPage (room : (l.items.length : Int) ≤ Index.greatest) {page : Nat}
    (there : l.hasPage page) : page ≤ maxCount := by
  have start := l.start_le_of_hasPage there
  have bound : page ≤ page * l.pageSize := Nat.le_mul_of_pos_right page l.pageSize_pos
  simp only [Index.greatest, maxCount] at *
  omega

/-- A page has the items between its first position and that of the next page. -/
theorem pageItems_eq (l : FullList) (page : Nat) :
    l.pageItems page = segment l.items (page * l.pageSize) ((page + 1) * l.pageSize) := by
  rw [pageItems, segment, List.take_drop, Nat.add_one_mul]

/-- A page ends where it says, or with the list. -/
theorem stop_pageItems {page : Nat} (start : page * l.pageSize ≤ l.items.length) :
    page * l.pageSize + (l.pageItems page).length
      = min ((page + 1) * l.pageSize) l.items.length := by
  rw [pageItems_eq, segment, List.length_drop, List.length_take, Nat.add_one_mul]
  omega

/-- The items on a page are the segment of the list from where it begins to where it ends. -/
theorem segment_pageItems {page : Nat} (start : page * l.pageSize ≤ l.items.length) :
    l.pageItems page = segment l.items (page * l.pageSize)
      (page * l.pageSize + (l.pageItems page).length) := by
  rw [stop_pageItems start, pageItems_eq, segment, segment, List.take_eq_take_iff.2]
  omega

/-- The items on some pages that follow each other. -/
def leaves (l : FullList) (first count : Nat) : List Item :=
  (List.range' first count).flatMap l.pageItems

/-- One page more at the end adds its items behind the others. -/
theorem leaves_succ (l : FullList) (first count : Nat) :
    l.leaves first (count + 1) = l.leaves first count ++ l.pageItems (first + count) := by
  rw [leaves, List.range'_concat, List.flatMap_append, List.flatMap_singleton, Nat.one_mul]
  rfl

/-- One page more at the front adds its items before the others. -/
theorem leaves_cons (l : FullList) (first count : Nat) :
    l.leaves first (count + 1) = l.pageItems first ++ l.leaves (first + 1) count := by
  rw [leaves, List.range'_succ, List.flatMap_cons]
  rfl

/-- Pages that follow each other are one segment of the list. -/
theorem leaves_eq (l : FullList) (first count : Nat) :
    l.leaves first count
      = segment l.items (first * l.pageSize) ((first + count) * l.pageSize) := by
  induction count with
  | zero => exact (segment_nil l.items (Nat.le_refl _)).symm
  | succ count ih =>
    rw [leaves_succ, ih, pageItems_eq, segment_append, Nat.add_assoc]
    · exact Nat.mul_le_mul_right _ (Nat.le_add_right ..)
    · exact Nat.mul_le_mul_right _ (Nat.le_add_right ..)

/-- All pages together are the list. -/
theorem leaves_all {count : Nat} (all : l.pageCount ≤ count) : l.leaves 0 count = l.items := by
  have beyond : l.items.length ≤ count * l.pageSize :=
    Nat.le_of_not_lt fun short => Nat.not_lt.2 all (l.lt_pageCount_iff.2 short)
  rw [leaves_eq, Nat.zero_mul, Nat.zero_add, segment, List.drop_zero, List.take_of_length_le beyond]

/-! ## Which page is next -/

/-- The token of the next page in a direction. -/
def adjacent (l : FullList) : Direction → Nat → Option String
  | .forward => l.forwardOf
  | .backward => l.backwardOf

/-- The page beyond an address is the next one in the direction of the address. -/
theorem beyond_eq (l : FullList) (address : PageToken) :
    l.beyond address = l.adjacent address.direction address.page := by
  cases address <;> rfl

/-- A page has another one behind it if it is not the last one. -/
theorem forwardOf_eq_some_iff {page : Nat} {text : String} :
    l.forwardOf page = some text
      ↔ page + 1 < l.pageCount ∧ text = (PageToken.toward .forward (page + 1)).text := by
  unfold forwardOf
  split
  · rename_i more
    rw [Option.some.injEq]
    exact ⟨fun same => ⟨more, same.symm⟩, fun ⟨_, same⟩ => same.symm⟩
  · rename_i last
    exact ⟨nofun, fun ⟨more, _⟩ => absurd more last⟩

/-- A page has another one before it if it is not the first one. -/
theorem backwardOf_eq_some_iff (l : FullList) {page : Nat} {text : String} :
    l.backwardOf page = some text
      ↔ ∃ before, page = before + 1 ∧ text = (PageToken.toward .backward before).text := by
  cases page with
  | zero => exact ⟨nofun, fun ⟨_, same, _⟩ => nomatch same⟩
  | succ before =>
    rw [backwardOf, Option.some.injEq]
    exact ⟨fun same => ⟨before, rfl, same.symm⟩,
      fun ⟨_, same, text⟩ => by rw [text, Nat.succ.inj same]; rfl⟩

/-! ## Answers and payloads -/

/-- The answer to a fetch of a page. -/
def pageAnswer (l : FullList) (token : CorrelationToken) (address : PageToken) : PageAnswer where
  listId := l.id
  token
  version := none
  page := address.text
  next := l.beyond address
  items := l.pageItems address.page

/-- The payload with which a client anchors on a page. -/
def pageListing (l : FullList) (page : Nat) : TokenListing where
  listId := l.id
  version := some l.version
  page := (PageToken.anchor page).text
  forward := l.forwardOf page
  backward := l.backwardOf page
  items := l.pageItems page

/-- A list with pages answers a fetch of a page if the page is there, and refuses the token if not.
-/
theorem respond_page (kind : l.kind = .token) {address : PageToken}
    (fits : address.page ≤ maxCount) (token : CorrelationToken) (listId : ListId) :
    l.respond (.page token listId address.text) =
      if l.hasPage address.page then .ok (.page (l.pageAnswer token address))
      else .error (.invalidPageToken address.text) := by
  simp only [respond, kind, readToken_text fits, bind, Except.bind]
  rfl

/-- A list with pages is loaded with the page that is asked for, if that is there. -/
theorem initial_page (kind : l.kind = .token) {q : Query} (there : l.hasPage (q.page.getD 0)) :
    l.initial q = .ok (.token (l.pageListing (q.page.getD 0))) := by
  simp only [initial, kind, there, if_true]
  rfl

/-- A page that is there begins at the product of its number and the size of a page. -/
theorem pageStart_text (room : (l.items.length : Int) ≤ Index.greatest) {address : PageToken}
    (there : l.hasPage address.page) :
    l.pageStart address.text = .ok ((address.page * l.pageSize : Nat) : Int) := by
  have start := l.start_le_of_hasPage there
  have least : min (address.page * l.pageSize) maxCount = address.page * l.pageSize := by
    simp only [Index.greatest, maxCount] at *
    omega
  simp only [pageStart, readToken_text (l.page_le_of_hasPage room there), bind, Except.bind, least]
  exact congrArg Except.ok (Index.wrapCount_eq_self (by omega))

end FullList

namespace Service

variable {s : Service} {list : FullList}

/-- A request for a page that is there is answered with the items on it, and the tracked range is
extended to where they are. -/
theorem answer_page (found : s.catalog.find list.id = .ok list) (kind : list.kind = .token)
    (room : (list.items.length : Int) ≤ Index.greatest) {address : PageToken}
    (there : list.hasPage address.page) (id : ConnectionId) (token : CorrelationToken)
    (requestId : Option String) :
    s.answer id (.fetch (.page token list.id address.text) requestId)
      = (s.withHub (·.extend id list.id ((address.page * list.pageSize : Nat) : Int)
          (list.pageItems address.page).length),
        .fetched (.page (list.pageAnswer token address)) requestId) := by
  have fetched : s.fetch none (.page token list.id address.text)
      = .ok (.page (list.pageAnswer token address)) := by
    simp only [Service.fetch, Catalog.fetch, FetchRequest.listId, found,
      FullList.respond_page kind (list.page_le_of_hasPage room there), there, if_true, served, bind,
      Except.bind]
  have range : s.fetchedRange (.page (list.pageAnswer token address))
      = some (((address.page * list.pageSize : Nat) : Int),
        (list.pageItems address.page).length) := by
    simp only [fetchedRange, FullList.pageAnswer, Catalog.pageStart, found,
      FullList.pageStart_text room there, bind, Except.bind, Except.toOption, Option.map_some]
  simp only [Service.answer, fetched, range]
  rfl

/-- A request for a page that is not there fails. -/
theorem answer_noPage (found : s.catalog.find list.id = .ok list) (kind : list.kind = .token)
    {address : PageToken} (fits : address.page ≤ maxCount) (missing : ¬list.hasPage address.page)
    (id : ConnectionId) (token : CorrelationToken) (requestId : Option String) :
    s.answer id (.fetch (.page token list.id address.text) requestId)
      = (s, .error (Failure.refused (.invalidPageToken address.text)).message requestId) := by
  have refused : s.fetch none (.page token list.id address.text)
      = .error (.refused (.invalidPageToken address.text)) := by
    simp only [Service.fetch, Catalog.fetch, FetchRequest.listId, found,
      FullList.respond_page kind fits, missing, served, bind, Except.bind, Bool.false_eq_true,
      if_false]
  simp only [Service.answer, refused]

/-- To anchor on a page is to have its range tracked. -/
theorem answer_anchor (found : s.catalog.find list.id = .ok list) (kind : list.kind = .token)
    (room : (list.items.length : Int) ≤ Index.greatest) {q : Query}
    (there : list.hasPage (q.page.getD 0)) (id : ConnectionId) (requestId : Option String) :
    s.answer id (.load list.id q requestId)
      = (s.withHub (·.track id list.id ((q.page.getD 0 * list.pageSize : Nat) : Int)
          (list.pageItems (q.page.getD 0)).length),
        .loaded (.token (list.pageListing (q.page.getD 0))) requestId) := by
  have loaded : s.load list.id q = .ok (.token (list.pageListing (q.page.getD 0))) := by
    simp only [Service.load, Catalog.initial, found, FullList.initial_page kind there, served, bind,
      Except.bind]
  have range : s.loadedRange (.token (list.pageListing (q.page.getD 0)))
      = some (((q.page.getD 0 * list.pageSize : Nat) : Int),
        (list.pageItems (q.page.getD 0)).length) := by
    have start := FullList.pageStart_text room
      (show list.hasPage (PageToken.anchor (q.page.getD 0)).page from there)
    simp only [loadedRange, FullList.pageListing, Catalog.pageStart, found, start, bind,
      Except.bind, Except.toOption, Option.map_some]
    rfl
  simp only [Service.answer, loaded, range]

/-- A new connection that anchors on a page of a token list and subscribes to the list is served. -/
theorem serves_anchor (sound : s.Sound) (found : s.catalog.find list.id = .ok list)
    (kind : list.kind = .token) (room : (list.items.length : Int) ≤ Index.greatest) {q : Query}
    (there : list.hasPage (q.page.getD 0)) (id : ConnectionId) :
    s.joinAnswer id list.id q = .loaded (.token (list.pageListing (q.page.getD 0))) none
      ∧ (s.join id list.id q).Serves list.id id list
        (.ofCount ((q.page.getD 0 * list.pageSize : Nat) : Int)
          (list.pageItems (q.page.getD 0)).length) [] :=
  serves_join_of_answer sound found
    (answer_anchor (s := s.step (.connect id)) found kind room there ..)

end Service

end ListSync.Producer
