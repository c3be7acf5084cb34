import ListSync.Proofs.Session.Effect
import Mathlib.Data.List.Nodup

/-!
# Pages in flight and outstanding requests

A page is asked for once, as long as it is in flight, and the next page in a direction changes with
the answer for that direction alone. So in each direction at most one request is outstanding, it
asks for the next page, no two requests ask for the same page, and the pages in flight are the ones
asked for (`InStep`). Every reachable session keeps this for all its token lists
(`inStep_of_reachable`), whatever the tokens are: where both directions lead to the same page, it is
asked for in one of them only.
-/

namespace ListSync

/-- The page a request asks for, if it asks for one. -/
def Request.page? (r : Request) : Option String :=
  match r.target with
  | .page page _ => some page
  | .range .. => none

/-- The direction in which a request asks for a page. -/
def Request.direction? (r : Request) : Option Direction :=
  match r.target with
  | .page _ d => some d
  | .range .. => none

namespace TokenWindow

variable {w : TokenWindow} {page : String} {d : Direction}

/-- A page that is worth fetching is the next one in its direction and not in flight. -/
theorem needsFetch_eq_some_iff :
    w.needsFetch d = some page ↔ w.adjacent d = some page ∧ page ∉ w.inFlight := by
  simp only [needsFetch, isInFlight, Option.filter_eq_some_iff, Bool.not_eq_true',
    List.contains_eq_mem, decide_eq_false_iff_not]

/-- A page that is not in flight is noted behind those that are. -/
theorem inFlight_mark_of_not_mem (fresh : page ∉ w.inFlight) :
    (w.mark page).inFlight = w.inFlight ++ [page] := by
  simp only [mark, isInFlight, List.contains_eq_mem, fresh, decide_false, Bool.false_eq_true,
    if_false]

/-- The next pages stay the same when one is marked as in flight. -/
theorem adjacent_mark (w : TokenWindow) (page : String) (d : Direction) :
    (w.mark page).adjacent d = w.adjacent d := by
  unfold mark
  split <;> cases d <;> rfl

/-- The next pages stay the same when one is not in flight any more. -/
theorem adjacent_clear (w : TokenWindow) (page : String) (d : Direction) :
    (w.clear page).adjacent d = w.adjacent d := by cases d <;> rfl

/-- To move the edge in one direction leaves the next page in the other. -/
theorem adjacent_advance_other {d' : Direction} (other : d' ≠ d) (w : TokenWindow)
    (next : Option String) : (w.advance d next).adjacent d' = w.adjacent d' := by
  cases d <;> cases d' <;> first | rfl | exact absurd rfl other

/-- The pages in flight stay the same when the window advances. -/
theorem inFlight_advance (w : TokenWindow) (d : Direction) (next : Option String) :
    (w.advance d next).inFlight = w.inFlight := by cases d <;> rfl

end TokenWindow

namespace Session

/-- Pages that are asked for one after the other are next ones, and stay so. -/
theorem Turns.adjacent {w w' : TokenWindow} {targets : List Target} (h : Turns w targets w') :
    (∀ t ∈ targets, ∃ page d, t = .page page d ∧ w.adjacent d = some page)
      ∧ ∀ d, w'.adjacent d = w.adjacent d := by
  induction h with
  | nil w => exact ⟨by simp, fun _ => rfl⟩
  | @cons w w' d page targets next rest ih =>
    obtain ⟨pages, same⟩ := ih
    have kept (d' : Direction) := w.adjacent_mark page d'
    refine ⟨List.forall_mem_cons.2 ⟨⟨page, d, rfl, ?_⟩, ?_⟩, fun d' => (same d').trans (kept d')⟩
    · exact (TokenWindow.needsFetch_eq_some_iff.1 next).1
    · intro t ht
      obtain ⟨page', d', target, adjacent⟩ := pages t ht
      exact ⟨page', d', target, (kept d').symm.trans adjacent⟩

/-- A token window and the requests for its list are in step. -/
structure InStep (w : TokenWindow) (rs : List Request) : Prop where
  /-- A request asks for the page that is next in its direction. -/
  adjacent : ∀ r ∈ rs, ∃ page d, r.target = .page page d ∧ w.adjacent d = some page
  /-- In each direction at most one request is outstanding. -/
  directions : (rs.map Request.direction?).Nodup
  /-- No two requests ask for the same page. -/
  pages : (rs.map Request.page?).Nodup
  /-- The pages in flight are the ones asked for. -/
  inFlight : w.inFlight.Perm (rs.filterMap Request.page?)

namespace InStep

variable {w : TokenWindow} {rs : List Request}

/-- The order of the requests has no part in their agreement with a window. -/
theorem of_perm {rs' : List Request} (h : InStep w rs) (same : rs'.Perm rs) : InStep w rs' where
  adjacent r hr := h.adjacent r (same.mem_iff.1 hr)
  directions := (same.map _).nodup_iff.2 h.directions
  pages := (same.map _).nodup_iff.2 h.pages
  inFlight := h.inFlight.trans (same.symm.filterMap _)

/-- A page in flight is asked for by a request. -/
theorem mem_inFlight_iff (h : InStep w rs) {page : String} :
    page ∈ w.inFlight ↔ ∃ r ∈ rs, r.page? = some page := by
  rw [h.inFlight.mem_iff, List.mem_filterMap]

/-- To ask for the next page in a direction keeps the two in step, if it is not in flight. -/
theorem asked (h : InStep w rs) {page : String} {d : Direction}
    (next : w.needsFetch d = some page) {r : Request} (target : r.target = .page page d) :
    InStep (w.mark page) (rs ++ [r]) := by
  obtain ⟨adjacent, fresh⟩ := TokenWindow.needsFetch_eq_some_iff.1 next
  have page_eq : r.page? = some page := by rw [Request.page?, target]
  have direction_eq : r.direction? = some d := by rw [Request.direction?, target]
  have unasked (r' : Request) (hr' : r' ∈ rs) : r'.page? ≠ some page := by
    intro same
    exact fresh (h.mem_inFlight_iff.2 ⟨r', hr', same⟩)
  refine ⟨?_, ?_, ?_, ?_⟩
  · intro r' hr'
    rcases List.mem_append.1 hr' with old | new
    · obtain ⟨page', d', target', adjacent'⟩ := h.adjacent r' old
      exact ⟨page', d', target', (w.adjacent_mark page d').trans adjacent'⟩
    · rw [List.mem_singleton.1 new]
      exact ⟨page, d, target, (w.adjacent_mark page d).trans adjacent⟩
  · rw [List.map_append, List.map_singleton, List.nodup_append]
    refine ⟨h.directions, List.nodup_singleton _, ?_⟩
    simp only [List.mem_map, List.mem_singleton]
    rintro _ ⟨r', hr', rfl⟩ _ rfl same
    -- an earlier request in this direction would ask for the same page
    obtain ⟨page', d', target', adjacent'⟩ := h.adjacent r' hr'
    rw [direction_eq, Request.direction?, target'] at same
    cases same
    rw [adjacent] at adjacent'
    cases adjacent'
    exact unasked r' hr' (by rw [Request.page?, target'])
  · rw [List.map_append, List.map_singleton, List.nodup_append]
    refine ⟨h.pages, List.nodup_singleton _, ?_⟩
    simp only [List.mem_map, List.mem_singleton]
    rintro _ ⟨r', hr', rfl⟩ _ rfl same
    exact unasked r' hr' (same.trans page_eq)
  · have single : [r].filterMap Request.page? = [page] := List.filterMap_cons_some page_eq
    rw [TokenWindow.inFlight_mark_of_not_mem fresh, List.filterMap_append, single]
    exact h.inFlight.append_right _

/-- So does to ask for several pages one after the other. -/
theorem turned (h : InStep w rs) {w' : TokenWindow} {rs' : List Request}
    (turns : Turns w (rs'.map (·.target)) w') : InStep w' (rs ++ rs') := by
  induction rs' generalizing w rs with
  | nil =>
    cases turns
    rwa [List.append_nil]
  | cons r rs' ih =>
    rw [List.map_cons] at turns
    generalize target : r.target = t at turns
    cases turns with
    | cons next rest =>
      have first := ih (h.asked next target) rest
      rwa [List.append_assoc, List.singleton_append] at first

/-- To settle a request keeps the two in step, whatever becomes of the next page in its
direction. -/
theorem settled (h : InStep w rs) {r : Request} (hr : r ∈ rs) {page : String} {d : Direction}
    (target : r.target = .page page d) {next : TokenWindow}
    (others : ∀ d', d' ≠ d → next.adjacent d' = w.adjacent d')
    (inFlight : next.inFlight = w.inFlight.filter (· ≠ page)) : InStep next (rs.erase r) := by
  have nodup : rs.Nodup := List.Nodup.of_map _ h.pages
  have page_eq : r.page? = some page := by rw [Request.page?, target]
  have rest : (rs.erase r).Sublist rs := List.erase_sublist
  refine ⟨?_, h.directions.sublist (rest.map _), h.pages.sublist (rest.map _), ?_⟩
  · intro r' hr'
    obtain ⟨apart, hr'⟩ := nodup.mem_erase_iff.1 hr'
    obtain ⟨page', d', target', adjacent⟩ := h.adjacent r' hr'
    refine ⟨page', d', target', (others d' ?_).trans adjacent⟩
    rintro rfl
    -- in this direction no other request is outstanding
    have same : r'.direction? = r.direction? := by
      rw [Request.direction?, Request.direction?, target, target']
    exact apart (List.inj_on_of_nodup_map h.directions hr' hr same)
  · have listed : (rs.filterMap Request.page?).Perm
        (page :: (rs.erase r).filterMap Request.page?) := by
      have first := (List.perm_cons_erase hr).filterMap Request.page?
      rwa [List.filterMap_cons_some page_eq] at first
    have left := (h.inFlight.trans listed).filter (fun p => decide (p ≠ page))
    rw [inFlight]
    rw [List.filter_cons_of_neg (by simp)] at left
    refine left.trans (List.Perm.of_eq (List.filter_eq_self.2 ?_))
    -- no other request asks for this page
    intro page' hp
    obtain ⟨r', hr', page_eq'⟩ := List.mem_filterMap.1 hp
    obtain ⟨apart, hr'⟩ := nodup.mem_erase_iff.1 hr'
    refine decide_eq_true fun same => apart (List.inj_on_of_nodup_map h.pages hr' hr ?_)
    rw [page_eq, page_eq', same]

end InStep

/-- A statement about what is known of a list, if that is a token list. -/
def Entry.Token (e : Entry) (P : TokenWindow → List Request → Prop) : Prop :=
  ∀ l w, e.list? = some l → l.window = .token w → P w e.requests

/-- Of a token list that is there, a statement speaks of its window and its requests. -/
theorem Entry.token_some {l : LoadedList} {w : TokenWindow} {rs : List Request}
    {P : TokenWindow → List Request → Prop} (loaded : l.window = .token w) (h : P w rs) :
    Entry.Token ⟨some l, rs⟩ P := by
  rintro l' w' ⟨⟩ loaded'
  cases loaded.symm.trans loaded'
  exact h

/-- Every statement about a token list holds where there is no list. -/
theorem Entry.token_none {rs : List Request} {P : TokenWindow → List Request → Prop} :
    Entry.Token ⟨none, rs⟩ P := by
  rintro l w ⟨⟩

/-- Every statement about a token list holds of an index list. -/
theorem Entry.token_index {l : LoadedList} {w : IndexWindow} {rs : List Request}
    {P : TokenWindow → List Request → Prop} (loaded : l.window = .index w) :
    Entry.Token ⟨some l, rs⟩ P := by
  rintro l' w' ⟨⟩ loaded'
  cases loaded.symm.trans loaded'

/-- Nothing is in flight for a token list that is taken in. -/
theorem inFlight_ofPayload_token {p : Listing} {l : LoadedList} {w : TokenWindow}
    (read : LoadedList.ofPayload p = .ok l) (loaded : l.window = .token w) : w.inFlight = [] := by
  cases p with
  | token p =>
    cases read
    cases loaded
    rfl
  | index p =>
    simp only [LoadedList.ofPayload] at read
    split at read
    · cases read
      cases loaded
    · cases read

variable {s : Session} {m : Move}

/-- Whatever a move does to a token list, its window and the requests for it are in step. -/
theorem inStep_effect (h : ∀ listId, (s.entry listId).Token InStep) {listId : ListId} {e : Entry}
    (effect : Effect s m listId e) : e.Token InStep := by
  cases effect with
  | kept => exact h listId
  | gone => exact Entry.token_none
  | installed inRange read =>
    rintro l w ⟨⟩ loaded
    have none := inFlight_ofPayload_token read loaded
    exact ⟨by simp, by simp, by simp, List.Perm.of_eq none⟩
  | edited update accepted found own =>
    rename_i u l b
    cases loaded : l.window with
    | index w => exact Entry.token_index rfl
    | token w => exact Entry.token_some rfl (h listId l w found loaded)
  | merged => exact Entry.token_index rfl
  | detached => exact Entry.token_index rfl
  -- an answer takes its page out of flight as it settles the request, taken in or refused
  | joined update answered own loaded page =>
    rename_i u l r a w d
    subst own
    have mem := RequestTable.mem_pendingFor.2 ⟨answered.pending, rfl⟩
    refine Entry.token_some rfl
      ((h r.listId l w answered.found loaded).settled mem page ?_ ?_)
    · intro d' other
      rw [TokenWindow.adjacent_advance_other other, TokenWindow.adjacent_clear]
    · exact TokenWindow.inFlight_advance ..
  | mispaged update answered own loaded page =>
    rename_i u l r a w asked d
    subst own
    have mem := RequestTable.mem_pendingFor.2 ⟨answered.pending, rfl⟩
    exact Entry.token_some rfl ((h r.listId l w answered.found loaded).settled mem page
      (fun d' _ => w.adjacent_clear asked d') rfl)
  | fetched => exact Entry.token_index rfl
  | turned found loaded turns =>
    exact Entry.token_some rfl ((h listId _ _ found loaded).turned turns)

/-- In every reachable session the pages in flight are those that are asked for. -/
theorem Reachable.entry_inStep (h : Reachable s) (listId : ListId) :
    (s.entry listId).Token InStep := by
  induction h generalizing listId with
  | create created =>
    obtain ⟨policy', -, rfl⟩ := eq_of_create created
    exact Entry.token_none
  | step h m ih => exact inStep_effect ih ((effects_step h.sound m).effect listId)

/-- In every reachable session the window of a token list and the outstanding requests for it are in
step. -/
theorem inStep_of_reachable (h : Reachable s) {listId : ListId} {l : LoadedList} {w : TokenWindow}
    (found : s.find? listId = some l) (loaded : l.window = .token w) :
    InStep w (s.outstanding listId) :=
  (h.entry_inStep listId l w found loaded).of_perm (s.requests.outstanding_perm listId)

/-- Pages are asked for in both directions. The answer for the one leads on to the page that is in
flight for the other, and is repeated. -/
def meetInTheMiddle : List Move :=
  [.register "dynamicTokenList" (.obj [("listId", .str "l"), ("pageToken", .str "p"),
      ("forwardPageToken", .str "f"), ("backwardPageToken", .str "b"), ("items", .arr [])]),
    .fetchPage "l" .forward, .fetchPage "l" .backward] ++
  List.replicate 2 (.apply "dynamicTokenList" (.obj [("listId", .str "l"),
    ("correlationToken", .str "101"), ("pageToken", .str "f"), ("nextPageToken", .str "b"),
    ("items", .arr [])]))

/-- Then the page is the next one in both directions, and one request is outstanding for it. -/
theorem inStep_meetInTheMiddle :
    (({} : Session).run meetInTheMiddle).find? "l"
      = some ⟨"l", [], .token ⟨"p", some "b", some "b", ["b"]⟩⟩
    ∧ InStep ⟨"p", some "b", some "b", ["b"]⟩
        ((({} : Session).run meetInTheMiddle).outstanding "l") := by
  have found : (({} : Session).run meetInTheMiddle).find? "l"
      = some ⟨"l", [], .token ⟨"p", some "b", some "b", ["b"]⟩⟩ := by decide
  exact ⟨found, inStep_of_reachable (reachable_default.run meetInTheMiddle) found rfl⟩

end Session

end ListSync
