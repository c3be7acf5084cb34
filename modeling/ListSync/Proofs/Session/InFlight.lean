import ListSync.Proofs.Plan
import ListSync.Proofs.RangeRequest
import ListSync.Proofs.Session.Bounds

/-!
# Ranges in flight and outstanding requests

What is being fetched for an index list is noted twice, in its window and in the table of requests.
The two agree all along a run exactly when each of its moves is tame (`inFlight_always_iff`): no
range is asked for that has more items than there are positive indices, no batch moves a pending
range back so that one of the two notes runs into an end of the index range, and no range is settled
of which another request is outstanding.
-/

namespace ListSync.Session

/-! ## The two notes for one list -/

/-- A window and the requests for its list speak of the same ranges. -/
structure Agree (w : IndexWindow) (rs : List Request) : Prop where
  start : Index.InRange w.start
  ranged : ∀ r ∈ rs, ∃ start count, r.Ranged start count
  spans : w.inFlight.Perm (rs.map Request.span)

namespace Agree

variable {w : IndexWindow} {rs : List Request}

/-- Requests that agree with a window ask for ranges. -/
theorem targets (h : Agree w rs) : ∀ r ∈ rs, ∃ start count, r.target = .range start count := by
  intro r hr
  obtain ⟨start, count, ranged⟩ := h.ranged r hr
  exact ⟨start, count, ranged.target⟩

/-- After a batch the two agree exactly when every request still asks for what its span covers. -/
theorem adjust_iff (h : Agree w rs) (delta : Int) :
    (w.adjust delta).inFlight.Perm ((rs.map (·.shift w.stop delta)).map Request.span)
      ↔ ∀ r ∈ rs, r.shiftsExactly w.stop delta := by
  let moved (r : Request) : Span :=
    if w.stop ≤ r.span.start then r.span.shift delta else r.span
  have noted : (w.adjust delta).inFlight.Perm (rs.map moved) := by
    have map := h.spans.map fun s => if w.stop ≤ s.start then s.shift delta else s
    rwa [List.map_map] at map
  rw [List.map_map]
  constructor
  -- no span ends behind the one of the moved request, so if all ends agree, each does
  · intro agree
    have stops := (noted.symm.trans agree).map Span.stop
    rw [List.map_map, List.map_map] at stops
    have same := eq_of_perm_of_le (l := rs) ?_ stops
    · intro r hr
      obtain ⟨start, count, ranged⟩ := h.ranged r hr
      exact (ranged.shift_spec w.stop delta).2.2.1 (same r hr)
    · intro r hr
      obtain ⟨start, count, ranged⟩ := h.ranged r hr
      exact (ranged.shift_spec w.stop delta).2.1
  · intro exactly
    refine noted.trans (List.Perm.of_eq (List.map_congr_left ?_))
    intro r hr
    obtain ⟨start, count, ranged⟩ := h.ranged r hr
    obtain ⟨starts, -, stops⟩ := ranged.shift_spec w.stop delta
    exact Span.ext starts (stops.2 (exactly r hr))

/-- A batch after which all requests still ask for what they span leaves window and requests in
agreement. -/
theorem adjusted (h : Agree w rs) {delta : Int} (exactly : ∀ r ∈ rs, r.shiftsExactly w.stop delta) :
    Agree (w.adjust delta) (rs.map (·.shift w.stop delta)) where
  start := h.start
  ranged r hr := by
    obtain ⟨r', hr', rfl⟩ := List.mem_map.1 hr
    obtain ⟨start, count, ranged⟩ := h.ranged r' hr'
    exact ⟨_, _, ranged.shift w.stop delta⟩
  spans := (h.adjust_iff delta).2 exactly

/-- Once ranges are asked for, the two agree exactly when none has more items than there are
positive indices. -/
theorem append_iff (h : Agree w rs) {ranges : List Span} {rs' : List Request}
    (proper : ∀ range ∈ ranges, Index.InRange range.start ∧ Index.InRange range.stop
      ∧ range.start < range.stop)
    (targets : rs'.map (·.target) = ranges.map fun range => .range range.start range.length) :
    (w.inFlight ++ ranges).Perm ((rs ++ rs').map Request.span)
      ↔ ∀ range ∈ ranges, (range.length : Int) ≤ Index.greatest := by
  rw [List.map_append, (h.spans.append_right ranges).congr_left, List.perm_append_left_iff,
    map_span_of_targets targets]
  constructor
  -- no request ends behind the range it is issued for, so if all ends agree, each does
  · intro agree
    have stops := (agree.map Span.stop).symm
    rw [List.map_map] at stops
    have same := eq_of_perm_of_le (l := ranges) ?_ stops
    · intro range hr
      obtain ⟨start, stop, nonempty⟩ := proper range hr
      exact (stop_of_length start stop nonempty).2.1 (same range hr)
    · intro range hr
      obtain ⟨start, stop, nonempty⟩ := proper range hr
      exact (stop_of_length start stop nonempty).1
  · intro short
    have same : ranges.map (fun range => Span.mk range.start
        (Index.add range.start (Index.wrapCount range.length))) = ranges.map id := by
      refine List.map_congr_left ?_
      intro range hr
      obtain ⟨start, stop, nonempty⟩ := proper range hr
      exact Span.ext rfl ((stop_of_length start stop nonempty).2.2 (short range hr))
    rw [same, List.map_id]

/-- New ranges and the requests for them come into the agreement together. -/
theorem appended (h : Agree w rs) {ranges : List Span} {rs' : List Request}
    (proper : ∀ range ∈ ranges, Index.InRange range.start ∧ Index.InRange range.stop
      ∧ range.start < range.stop)
    (targets : rs'.map (·.target) = ranges.map fun range => .range range.start range.length)
    (short : ∀ range ∈ ranges, (range.length : Int) ≤ Index.greatest) :
    Agree { w with inFlight := w.inFlight ++ ranges } (rs ++ rs') where
  start := h.start
  ranged r hr := by
    rcases List.mem_append.1 hr with old | new
    · exact h.ranged r old
    · have target : r.target ∈ rs'.map (·.target) := List.mem_map_of_mem new
      rw [targets] at target
      obtain ⟨range, hrange, target⟩ := List.mem_map.1 target
      obtain ⟨start, -, nonempty⟩ := proper range hrange
      refine ⟨range.start, range.length, target.symm, start, ?_, short range hrange⟩
      rw [Span.length]
      omega
  spans := (h.append_iff proper targets).2 short

/-- Once a request is settled, the two agree exactly when no other one asks for the same range. -/
theorem settle_iff (h : Agree w rs) (nodup : rs.Nodup) {r : Request} (hr : r ∈ rs) :
    (w.inFlight.filter (· ≠ r.span)).Perm ((rs.erase r).map Request.span)
      ↔ ∀ r' ∈ rs, r' ≠ r → r'.span ≠ r.span := by
  -- the mark that belongs to the request goes, and so do all others for the same range
  have first : w.inFlight.Perm (r.span :: (rs.erase r).map Request.span) :=
    h.spans.trans ((List.perm_cons_erase hr).map Request.span)
  have noted := first.filter (fun s => decide (s ≠ r.span))
  rw [List.filter_cons_of_neg (by simp)] at noted
  have others : (∀ r' ∈ rs, r' ≠ r → r'.span ≠ r.span)
      ↔ ∀ s ∈ (rs.erase r).map Request.span, s ≠ r.span := by
    simp only [List.forall_mem_map, nodup.mem_erase_iff, and_imp]
    constructor
    · intro h r' apart hr'
      exact h r' hr' apart
    · intro h r' hr' apart
      exact h r' apart hr'
  rw [noted.congr_left, others]
  constructor
  · intro agree s hs
    simpa using List.of_mem_filter (agree.mem_iff.2 hs)
  · intro apart
    rw [List.filter_eq_self.2 fun s hs => by simpa using apart s hs]

/-- A range leaves the agreement with its request if no other request spans the same. -/
theorem settled (h : Agree w rs) (nodup : rs.Nodup) {r : Request} (hr : r ∈ rs)
    (once : ∀ r' ∈ rs, r' ≠ r → r'.span ≠ r.span) {next : IndexWindow}
    (start : Index.InRange next.start) (inFlight : next.inFlight = w.inFlight.filter (· ≠ r.span)) :
    Agree next (rs.erase r) where
  start := start
  ranged r' hr' := h.ranged r' (List.mem_of_mem_erase hr')
  spans := by
    rw [inFlight]
    exact (h.settle_iff nodup hr).2 once

end Agree

/-! ## The law and the moves that keep it -/

/-- The ranges in flight for an index list are those of its outstanding requests, and it waits for
something exactly as long as there are any. -/
structure NotedTwice (s : Session) (listId : ListId) (w : IndexWindow) : Prop where
  agree : w.inFlight.Perm ((s.outstanding listId).filterMap Request.span?)
  pending : s.state? listId = some .pending ↔ s.outstanding listId ≠ []
  settled : s.outstanding listId = [] → w.inFlight = []

/-- For all index lists, ranges in flight and outstanding requests agree. -/
def FlightsLaw (s : Session) : Prop :=
  ∀ listId l w, s.find? listId = some l → l.window = .index w → NotedTwice s listId w

/-- Whether all requests for a list that is edited still ask for what their spans cover. -/
def shiftsExactly (s : Session) (l : LoadedList) (b : Batch) : Bool :=
  match l.window with
  | .index w => (s.requests.pendingFor b.listId).all
    (·.shiftsExactly w.stop (applyEdits l.items b.edits).2.delta)
  | .token _ => true

/-- Whether no other request is outstanding for the range that an answer settles. -/
def settlesAlone (s : Session) (a : RangeAnswer) (asked : Span) : Bool :=
  (s.requests.pendingFor a.listId).all fun r => r.token = a.token || r.span? ≠ some asked

/-- A move that keeps ranges in flight and outstanding requests in agreement. -/
def Tame (s : Session) (m : Move) : Prop :=
  (∀ e ∈ m.edits? s, s.shiftsExactly e.1 e.2) ∧ (∀ e ∈ m.answer? s, s.settlesAlone e.1 e.2)
    ∧ ∀ range ∈ m.ranges s, (range.length : Int) ≤ Index.greatest

instance (s : Session) (m : Move) : Decidable (Tame s m) :=
  inferInstanceAs (Decidable ((∀ e ∈ m.edits? s, s.shiftsExactly e.1 e.2 = true)
    ∧ (∀ e ∈ m.answer? s, s.settlesAlone e.1 e.2 = true)
    ∧ ∀ range ∈ m.ranges s, (range.length : Int) ≤ Index.greatest))

/-- Names, handles and tokens agree, and so do the two notes for every index list. -/
structure AllAgree (s : Session) : Prop where
  sound : s.core.Sound
  agree : ∀ listId, (s.entry listId).Index fun _ w rs => Agree w rs

variable {s : Session} {m : Move}

/-- No request is outstanding twice for a list. -/
theorem nodup_pendingFor (sound : s.core.Sound) (listId : ListId) :
    (s.requests.pendingFor listId).Nodup :=
  (List.Nodup.of_map _ sound.requests.distinct).filter _

/-- The law for one list, where its requests all ask for ranges. -/
theorem NotedTwice.agree_iff {listId : ListId} {rs : List Request} {w : IndexWindow}
    (pending : s.requests.pendingFor listId = rs)
    (targets : ∀ r ∈ rs, ∃ start count, r.target = .range start count) :
    w.inFlight.Perm ((s.outstanding listId).filterMap Request.span?)
      ↔ w.inFlight.Perm (rs.map Request.span) := by
  have listed := (s.requests.outstanding_perm listId).filterMap Request.span?
  rw [pending, filterMap_span? targets] at listed
  exact listed.congr_right _

/-- Where the two notes agree for every index list, ranges in flight are those asked for. -/
theorem AllAgree.flightsLaw (h : AllAgree s) : FlightsLaw s := by
  intro listId l w found loaded
  have agree := h.agree listId l w found loaded
  have spans := (NotedTwice.agree_iff rfl agree.targets).2 agree.spans
  have unfinished : s.finished = false := h.sound.unfinished found
  have none : s.outstanding listId = [] ↔ w.inFlight = [] := by
    have listed : (s.outstanding listId).length = (s.entry listId).requests.length :=
      (s.requests.outstanding_perm listId).length_eq
    have noted := agree.spans.length_eq
    rw [List.length_map] at noted
    rw [← List.length_eq_zero_iff, ← List.length_eq_zero_iff, noted, listed]
  refine ⟨spans, ?_, none.1⟩
  have state : s.state? listId = if w.inFlight.isEmpty then some .idle else some .pending := by
    simp only [state?, unfinished, found, Option.map_some, LoadedList.isFetching, loaded,
      Window.hasInFlight, Bool.false_eq_true, if_false]
    cases w.inFlight.isEmpty <;> rfl
  rw [state, Ne, none]
  cases w.inFlight with
  | nil => simp
  | cons span rest => simp

/-! ## What a move does to the two notes -/

/-- A batch moves the requests for an index list that lie behind its loaded items. -/
theorem editedRequests_index (t : RequestTable) (listId : ListId) (w : IndexWindow) (delta : Int) :
    (editedRequests t listId (.index w) delta).pendingFor listId
      = (t.pendingFor listId).map (·.shift w.stop delta) := by
  rw [editedRequests, t.pendingFor_shift, if_pos rfl]

/-- No other request is outstanding for a range, said of the requests themselves. -/
theorem AllAgree.settlesAlone_iff (h : AllAgree s) {u : QueuedUpdate} {a : RangeAnswer}
    {l : LoadedList} {r : Request} {w : IndexWindow} {asked : Span}
    (answered : Answered s u (.range a) l r) (loaded : l.window = .index w)
    (range : r.span? = some asked) :
    s.settlesAlone a asked ↔ ∀ r' ∈ s.requests.pendingFor r.listId, r' ≠ r → r'.span ≠ r.span := by
  have agree : Agree w (s.requests.pendingFor r.listId) :=
    h.agree r.listId l w answered.found loaded
  have named : r.token = a.token := Option.some.inj answered.token.symm
  have span : r.span = asked := Request.span_of_span? range
  have own : a.listId = r.listId := answered.listId
  simp only [settlesAlone, List.all_eq_true, own, span, Bool.or_eq_true,
    decide_eq_true_eq]
  refine forall₂_congr ?_
  intro r' hr'
  obtain ⟨start, count, ranged⟩ := agree.ranged r' hr'
  -- of the outstanding requests the answer names just one
  have same : r'.token = a.token ↔ r' = r := by
    constructor
    · intro e
      exact h.sound.requests.eq_of_token (RequestTable.mem_pendingFor.1 hr').1 answered.pending
        (e.trans named.symm)
    · rintro rfl
      exact named
  rw [same, ranged.span?, ranged.span, Ne, Ne, Option.some.injEq, ← or_iff_not_imp_left]

/-- Whether requests move exactly can be asked of each request for the list. -/
theorem AllAgree.shiftsExactly_iff {l : LoadedList} {b : Batch} {w : IndexWindow}
    (loaded : l.window = .index w) :
    s.shiftsExactly l b ↔ ∀ r ∈ s.requests.pendingFor b.listId,
      r.shiftsExactly w.stop (applyEdits l.items b.edits).2.delta := by
  simp only [shiftsExactly, loaded, List.all_eq_true]

/-- A tame move leaves the two notes for a list in agreement. -/
theorem AllAgree.effect (h : AllAgree s) (tame : Tame s m) {listId : ListId} {e : Entry}
    (effect : Effect s m listId e) : e.Index fun _ w rs => Agree w rs := by
  obtain ⟨edits, answers, ranges⟩ := tame
  -- an answer settles its request whether or not it fits
  have settled {u : QueuedUpdate} {l : LoadedList} {r : Request} {a : RangeAnswer}
      {w next : IndexWindow} {asked : Span} (update : m.update? s = some u)
      (answered : Answered s u (.range a) l r) (loaded : l.window = .index w)
      (range : r.span? = some asked) (start : Index.InRange next.start)
      (inFlight : next.inFlight = w.inFlight.filter (· ≠ asked)) :
      Agree next ((s.requests.pendingFor r.listId).erase r) := by
    have alone := answers (a, asked) (Option.bind_eq_some_iff.2
      ⟨u, update, answer?_of_answered h.sound.requests answered range⟩)
    have span : r.span = asked := Request.span_of_span? range
    have mem := RequestTable.mem_pendingFor.2 ⟨answered.pending, rfl⟩
    exact (h.agree r.listId l w answered.found loaded).settled (nodup_pendingFor h.sound _) mem
      ((h.settlesAlone_iff answered loaded range).1 alone) start (span ▸ inFlight)
  cases effect with
  | kept => exact h.agree listId
  | gone => exact Entry.index_none
  | installed inRange read =>
    rintro l w ⟨⟩ loaded
    have fits := fits_ofPayload inRange read loaded
    refine ⟨fits.start, fun r hr => absurd hr List.not_mem_nil, ?_⟩
    rw [inFlight_ofPayload read loaded]
    exact List.Perm.refl _
  | edited update accepted found own =>
    rename_i u l b
    subst own
    cases loaded : l.window with
    | token w => exact Entry.index_token rfl
    | index w =>
      have agree := h.agree b.listId l w found loaded
      have exactly := edits (l, b) (Move.edits?_of_update? update accepted)
      refine (Entry.index_some rfl).2 ?_
      rw [editedRequests_index]
      exact agree.adjusted ((shiftsExactly_iff loaded).1 exactly)
  | merged update answered own loaded range absorbed =>
    rename_i u l r a w window asked plan
    subst own
    have agree := h.agree r.listId l w answered.found loaded
    have inRange := (answered.readFrom.inRange a rfl).start
    have start : Index.InRange (w.clear asked).start := agree.start
    have taken := IndexWindow.absorbed_of_absorb start inRange absorbed
    refine (Entry.index_some rfl).2 (settled update answered loaded range ?_
      (IndexWindow.inFlight_of_absorb absorbed))
    rcases taken.begins with same | before
    · rw [same]
      exact start
    · rw [before]
      exact inRange
  | detached update answered own loaded range =>
    rename_i u l r a w asked
    subst own
    have agree := h.agree r.listId l w answered.found loaded
    have start : Index.InRange (w.clear asked).start := agree.start
    exact (Entry.index_some rfl).2 (settled update answered loaded range start rfl)
  | joined => exact Entry.index_token rfl
  | mispaged => exact Entry.index_token rfl
  | fetched inRange asked found loaded targets =>
    rename_i l w i rs
    have agree := h.agree listId l w found loaded
    refine (Entry.index_some rfl).2 (agree.appended ?_ targets ?_)
    · intro range hr
      exact IndexWindow.inRange_of_plan agree.start inRange hr
    · intro range hr
      exact ranges range (asked ▸ hr)
  | turned => exact Entry.index_token rfl

/-- The two notes agree for every index list after a tame move. -/
theorem AllAgree.step (h : AllAgree s) (tame : Tame s m) : AllAgree (s.step m) where
  sound := (effects_step h.sound m).sound
  agree listId := h.effect tame ((effects_step h.sound m).effect listId)

/-- The law for one list of which the entry is known. -/
theorem FlightsLaw.spans (law : FlightsLaw s) {listId : ListId} {l : LoadedList} {w : IndexWindow}
    {rs : List Request} (entry : s.entry listId = ⟨some l, rs⟩) (loaded : l.window = .index w)
    (targets : ∀ r ∈ rs, ∃ start count, r.target = .range start count) :
    w.inFlight.Perm (rs.map Request.span) :=
  (NotedTwice.agree_iff (congrArg Entry.requests entry) targets).1
    (law listId l w (congrArg Entry.list? entry) loaded).agree

/-- A move that is not tame breaks the law. -/
theorem AllAgree.tame (h : AllAgree s) (law : FlightsLaw (s.step m)) : Tame s m := by
  -- each way to be wild would leave a range in flight that no request asks for, or the converse
  refine ⟨?_, ?_, ?_⟩
  · rintro ⟨l, b⟩ edits
    obtain ⟨u, update, accepted⟩ := Option.bind_eq_some_iff.1 edits
    obtain ⟨-, found, -⟩ := edits?_eq_some_iff.1 accepted
    cases loaded : l.window with
    | token w => simp only [shiftsExactly, loaded]
    | index w =>
      have agree := h.agree b.listId l w found loaded
      have after := entry_of_edits? h.sound update accepted
      rw [loaded, editedRequests_index] at after
      have spans := law.spans after rfl fun r hr => by
        obtain ⟨r', hr', rfl⟩ := List.mem_map.1 hr
        obtain ⟨start, count, ranged⟩ := agree.ranged r' hr'
        exact ⟨_, _, (ranged.shift w.stop _).target⟩
      exact (shiftsExactly_iff loaded).2 ((agree.adjust_iff _).1 spans)
  · rintro ⟨a, asked⟩ answers
    obtain ⟨u, update, settled⟩ := Option.bind_eq_some_iff.1 answers
    obtain ⟨l, r, w, items, next, answered, loaded, range, inFlight, after⟩ :=
      entry_of_answer? h.sound update settled
    have agree := h.agree r.listId l w answered.found loaded
    have span : r.span = asked := Request.span_of_span? range
    have mem := RequestTable.mem_pendingFor.2 ⟨answered.pending, rfl⟩
    have spans := law.spans after rfl fun r' hr' => agree.targets r' (List.mem_of_mem_erase hr')
    rw [inFlight, ← span] at spans
    exact (h.settlesAlone_iff answered loaded range).2
      ((agree.settle_iff (nodup_pendingFor h.sound _) mem).1 spans)
  · intro range hrange
    obtain ⟨listId, l, w, i, rs, inRange, ranges, found, loaded, targets, after⟩ :=
      entry_of_ranges h.sound hrange
    have agree := h.agree listId l w found loaded
    have spans := law.spans after rfl fun r hr => by
      rcases List.mem_append.1 hr with old | new
      · exact agree.targets r old
      · have target : r.target ∈ rs.map (·.target) := List.mem_map_of_mem new
        rw [targets] at target
        obtain ⟨range, -, target⟩ := List.mem_map.1 target
        exact ⟨_, _, target.symm⟩
    have proper range (hr : range ∈ w.plan s.policy i) :=
      IndexWindow.inRange_of_plan agree.start inRange hr
    exact (agree.append_iff proper targets).1 spans range (ranges ▸ hrange)

/-- The two notes agree in a new session, which has no list yet. -/
theorem allAgree_create {policy : Policy} (created : create policy = .ok s) : AllAgree s where
  sound := sound_create created
  agree listId := by
    obtain ⟨policy', -, rfl⟩ := eq_of_create created
    exact Entry.index_none

/-- All along a run of a session, ranges in flight and outstanding requests agree exactly when all
moves of the run are tame. -/
theorem inFlight_always_iff {policy : Policy} (created : create policy = .ok s)
    (moves : List Move) : s.Always FlightsLaw moves ↔ s.Throughout Tame moves :=
  always_iff_throughout (fun _ h => h.flightsLaw) (fun _ _ h tame => h.step tame)
    (fun _ _ h law => h.tame law) (allAgree_create created) moves

/-- A host registers an empty list that starts at an index, wants an item of it, and gets another
one. -/
def wantAt (start i : Int) (inRange : Index.InRange i) : List Move :=
  [.register "dynamicIndexList" (.obj [("listId", .str "l"), ("startIndex", Json.ofInt start),
      ("items", .arr [])]),
    .ensureIndex "l" i inRange,
    .apply "dynamicIndexList" (.obj [("listId", .str "l"), ("correlationToken", .str "101"),
      ("startIndex", Json.ofInt start), ("items", .arr [.str "a"])])]

/-- Where the item is near, the law holds all along. -/
theorem inFlight_always_near : ({} : Session).Always FlightsLaw (wantAt 0 5 (by decide)) :=
  (inFlight_always_iff (show create {} = .ok {} from rfl) (wantAt 0 5 (by decide))).2 (by decide)

/-- Where it is more than half of all indices away, nothing is outstanding at the end, but a range
is in flight for good. -/
theorem inFlight_stuck_far :
    Reachable (({} : Session).run (wantAt Index.least 0 (by decide)))
    ∧ (({} : Session).run (wantAt Index.least 0 (by decide))).finished = false
    ∧ (({} : Session).run (wantAt Index.least 0 (by decide))).outstanding "l" = []
    ∧ ¬FlightsLaw (({} : Session).run (wantAt Index.least 0 (by decide))) := by
  have empty : (({} : Session).run (wantAt Index.least 0 (by decide))).outstanding "l" = [] :=
    ((RequestTable.outstanding_perm _ "l").trans (List.Perm.of_eq (by decide))).eq_nil
  refine ⟨reachable_default.run _, by decide, empty, ?_⟩
  intro law
  have noted := law "l" ⟨"l", [.str "a"],
    .index ⟨none, none, Index.least, 1, [⟨Index.least, 1⟩]⟩⟩ _ (by decide) rfl
  exact absurd (noted.settled empty) (by decide)

end ListSync.Session
