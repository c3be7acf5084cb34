import ListSync.Proofs.Plan
import ListSync.Proofs.Prefetch
import ListSync.Proofs.Session.Checked
import ListSync.Proofs.Session.Tickets

/-!
# Accesses to a position only fetch ahead

A position is meant for an item that is loaded, so that an access to it should ask for nothing but
what lies beyond an edge it is near to (`Session.OnlyPrefetches`). In a token list it never does
anything else. In an index list the position is turned into an index before anything is compared
with the number of loaded items, and whatever is missing at that index is fetched: that is the only
way to ask for more (`Session.Overshoots`, `positionsLaw_always`). Of positions of loaded
items it is not needed that the bounds of the list are kept, since nothing is fetched from the
greatest index on (`near_of_mem_plan`).
-/

namespace ListSync

/-- What is asked for lies beyond an edge of what is loaded. -/
inductive Target.Beyond : Window → Direction → Target → Prop
  | before {w : IndexWindow} {start : Int} {count : Nat} (some : 0 < count)
    (ends : start + count = w.start) : Beyond (.index w) .backward (.range start count)
  | behind {w : IndexWindow} {count : Nat} (some : 0 < count) :
    Beyond (.index w) .forward (.range w.stop count)
  | page {w : TokenWindow} {page : String} {d : Direction} : Beyond (.token w) d (.page page d)

namespace IndexWindow

variable {w : IndexWindow} {p : Policy} {range : Span}

/-- What is fetched ahead for a loaded index. -/
theorem mem_prefetch {i : Int} (h : range ∈ w.prefetch p i) :
    (i - w.start < Index.wrapCount p.prefetchDistance
        ∧ range = w.rangeBefore p (Index.sub w.start 1))
      ∨ w.stop - 1 - i < Index.wrapCount p.prefetchDistance ∧ range = w.rangeBehind p w.stop := by
  unfold prefetch at h
  dsimp only at h
  split at h
  · cases h
  · rcases List.mem_append.1 h with before | behind
    · split at before
      · rename_i near
        exact .inl ⟨near.1, List.mem_singleton.1 before⟩
      · cases before
    · split at behind
      · rename_i near
        exact .inr ⟨near.1, List.mem_singleton.1 behind⟩
      · cases behind

/-- No range begins at the greatest index, so that one which is planned behind the loaded items
begins behind all of them, even where they reach beyond the greatest index. -/
theorem stop_of_planned_behind (start : Index.InRange w.start)
    (short : (w.count : Int) ≤ Index.greatest) {i : Int} (inRange : Index.InRange i)
    (h : range ∈ w.plan p i) (behind : range.start = w.stop) : w.stop = w.start + w.count := by
  obtain ⟨-, ⟨-, last⟩, nonempty⟩ := inRange_of_plan start inRange h
  have before : w.stop < Index.greatest := by omega
  simp only [stop, Index.add, Index.clamp, Index.ofCount, Index.InRange, Index.least,
    Index.greatest] at *
  omega

/-- Where anything is planned for the position of a loaded item, the item has an index. -/
theorem covers_of_planned (start : Index.InRange w.start) (short : (w.count : Int) ≤ Index.greatest)
    {position : Nat} (loaded : position < w.count)
    (h : range ∈ w.plan p (Index.add w.start position)) :
    Index.add w.start position = w.start + position ∧ w.span.Covers (w.start + position) := by
  have inRange := Index.inRange_add w.start position
  have first : w.start ≤ Index.add w.start position := by
    simp only [Index.add, Index.clamp, Index.InRange, Index.least, Index.greatest] at *
    omega
  have last : Index.add w.start position < w.stop := by
    by_contra beyond
    -- only what lies behind the loaded items can be planned for an index behind them
    have behind : range.start = w.stop := by
      have wanted := (List.mem_filter.1 h).1
      have uncovered : ¬w.contains (Index.add w.start position) :=
        fun covered => beyond ((w.contains_iff _).1 covered).2
      rw [IndexWindow.wanted, if_neg uncovered] at wanted
      split at wanted
      · rw [List.mem_singleton.1 wanted, if_neg (Int.not_lt.2 first)]
        rfl
      · cases wanted
    have room := stop_of_planned_behind start short inRange h behind
    simp only [Index.add, Index.clamp, Index.InRange, Index.least, Index.greatest] at *
    omega
  have exact : Index.add w.start position = w.start + position := by
    have stop : w.stop ≤ Index.greatest := (Index.inRange_add ..).2
    simp only [Index.add, Index.clamp, Index.InRange, Index.least, Index.greatest] at *
    omega
  exact ⟨exact, exact ▸ first, exact ▸ last⟩

/-- A range that is planned for the position of a loaded item lies beyond an edge that the position
is near to. -/
theorem near_of_mem_plan (start : Index.InRange w.start) (short : (w.count : Int) ≤ Index.greatest)
    {position : Nat} (loaded : position < w.count)
    (h : range ∈ w.plan p (Index.add w.start (Index.wrapCount position))) :
    ∃ d, Target.Beyond (.index w) d (.range range.start range.length)
      ∧ p.Near ⟨0, w.count⟩ position d := by
  rw [Index.wrapCount_eq_self (by omega)] at h
  obtain ⟨reads, covers⟩ := covers_of_planned start short loaded h
  have nonempty := nonempty_of_plan h
  have length : (range.length : Int) = range.stop - range.start := by
    rw [Span.length]
    omega
  -- a distance may wrap, but never to a greater one, so what is near stays so
  have wrapped := Index.wrapCount_le p.prefetchDistance
  have wanted := (List.mem_filter.1 h).1
  rw [reads, wanted_of_covers covers] at wanted
  rcases mem_prefetch wanted with ⟨near, before⟩ | ⟨near, behind⟩
  · have ends : range.stop = w.start := congrArg Span.stop before
    refine ⟨.backward, .before (by omega) (by omega), ?_⟩
    simp only [Policy.Near]
    omega
  · have begins : range.start = w.stop := congrArg Span.start behind
    have room := stop_of_planned_behind start short (Index.inRange_add ..) h begins
    refine ⟨.forward, begins ▸ .behind (by omega), ?_⟩
    simp only [Policy.Near]
    omega

end IndexWindow

namespace Session

variable {s : Session} {listId : ListId} {l : LoadedList} {r : Request}

/-! ## Requests of an access -/

/-- Once a request is issued, what is outstanding was so before or is that request. -/
theorem mem_pending_issue (s : Session) (listId : ListId) (target : Target)
    (h : r ∈ (s.issue listId target).1.requests.pending) :
    r ∈ s.requests.pending ∨ r.listId = listId ∧ r.target = target := by
  rw [requests_issue, RequestTable.add, List.mem_append] at h
  rcases h with old | new
  · exact .inl (List.mem_filter.1 old).1
  · rw [List.mem_singleton.1 new]
    exact .inr ⟨rfl, rfl⟩

/-- Once a range is asked for, what is outstanding was so before or asks for that range. -/
theorem mem_pending_fetchRange (s : Session) (listId : ListId) (range : Span)
    (h : r ∈ (s.fetchRange listId range).1.requests.pending) :
    r ∈ s.requests.pending ∨ r.listId = listId ∧ r.target = .range range.start range.length := by
  unfold fetchRange at h
  dsimp only at h
  split at h
  · exact mem_pending_issue (s.modifyWindow listId _) listId _ h
  · exact mem_pending_issue s listId _ h

/-- Once ranges are asked for, what is outstanding was so before or asks for one of them. -/
theorem mem_pending_fetchRanges (s : Session) (listId : ListId) (ranges : List Span)
    (h : r ∈ (s.fetchRanges listId ranges).1.requests.pending) :
    r ∈ s.requests.pending
      ∨ r.listId = listId ∧ ∃ range ∈ ranges, r.target = .range range.start range.length := by
  induction ranges generalizing s with
  | nil => exact .inl h
  | cons range ranges ih =>
    rcases ih (s.fetchRange listId range).1 h with before | ⟨own, later, among, asks⟩
    · refine (mem_pending_fetchRange s listId range before).imp_right fun new => ?_
      exact ⟨new.1, range, List.mem_cons_self, new.2⟩
    · exact .inr ⟨own, later, List.mem_cons_of_mem range among, asks⟩

/-- Once a page is fetched, what is outstanding was so before or asks for a page in that direction.
-/
theorem mem_pending_fetchPage (s : Session) (listId : ListId) (d : Direction)
    (h : r ∈ (s.fetchPage listId d).1.requests.pending) :
    r ∈ s.requests.pending ∨ r.listId = listId ∧ ∃ page, r.target = .page page d := by
  unfold fetchPage at h
  split at h
  · exact .inl h
  · split at h
    · exact .inl h
    · split at h
      · exact .inl h
      · split at h
        · exact .inl h
        · rename_i page _
          refine (mem_pending_issue (s.modifyWindow listId _) listId _ h).imp_right fun new => ?_
          exact ⟨new.1, page, new.2⟩

/-- Once pages are fetched, what is outstanding was so before or asks for one of those pages. -/
theorem mem_pending_fetchPages (s : Session) (listId : ListId) (ds : List Direction)
    (h : r ∈ (s.fetchPages listId ds).1.requests.pending) :
    r ∈ s.requests.pending
      ∨ r.listId = listId ∧ ∃ d ∈ ds, ∃ page, r.target = .page page d := by
  -- over the directions, from the first: what it asks for is outstanding while the rest is fetched
  induction ds generalizing s with
  | nil => exact .inl h
  | cons d ds ih =>
    have first := s.mem_pending_fetchPage (r := r) listId d
    have once (h : r ∈ (s.fetchPage listId d).1.requests.pending) : r ∈ s.requests.pending
        ∨ r.listId = listId ∧ ∃ d' ∈ d :: ds, ∃ page, r.target = .page page d' :=
      (first h).imp_right fun new => ⟨new.1, d, List.mem_cons_self, new.2⟩
    unfold fetchPages at h
    cases fetched : s.fetchPage listId d with
    | mk next answer =>
      rw [fetched] at h once
      cases answer with
      | error why => exact once h
      | ok token =>
        dsimp only at h
        have rest : r ∈ (next.fetchPages listId ds).1.requests.pending := by
          cases later : next.fetchPages listId ds with
          | mk last answer =>
            rw [later] at h
            cases answer <;> exact h
        rcases ih next rest with before | ⟨own, d', among, asks⟩
        · exact once before
        · exact .inr ⟨own, d', List.mem_cons_of_mem d among, asks⟩

/-! ## Accesses to a position -/

/-- An access to a position of an index list is one to an index. -/
theorem ensurePosition_index {w : IndexWindow} (unfinished : s.finished = false)
    (found : s.find? listId = some l) (loaded : l.window = .index w) (position : Nat) :
    s.ensurePosition listId position
      = ((s.fetchRanges listId
            (w.plan s.policy (Index.add w.start (Index.wrapCount position)))).1,
        .ok (s.fetchRanges listId
            (w.plan s.policy (Index.add w.start (Index.wrapCount position)))).2) := by
  simp only [ensurePosition, unfinished, found, loaded, Bool.false_eq_true, if_false,
    ensureIndex_eq unfinished found loaded]

/-- An access to a position of a token list fetches the pages ahead of it. -/
theorem ensurePosition_token {w : TokenWindow} (unfinished : s.finished = false)
    (found : s.find? listId = some l) (loaded : l.window = .token w) (position : Nat) :
    s.ensurePosition listId position
      = s.fetchPages listId (s.policy.pagesAhead l.items.length position) := by
  simp only [ensurePosition, unfinished, found, loaded, Bool.false_eq_true, if_false]

/-- An access to a position of a list only fetches ahead: it asks for nothing if nothing is to be
fetched ahead or no item is loaded there, and else only beyond the edges that the position is near
to. -/
structure OnlyPrefetches (s : Session) (listId : ListId) (position : Nat) (l : LoadedList) :
    Prop where
  idle : s.policy.prefetchDistance = 0 ∨ l.items.length ≤ position →
    s.ensurePosition listId position = (s, .ok [])
  near : ∀ r ∈ (s.ensurePosition listId position).1.requests.pending, r ∉ s.requests.pending →
    r.listId = listId ∧ ∃ d, r.target.Beyond l.window d
      ∧ s.policy.Near ⟨0, l.items.length⟩ position d

/-- A position of an index list at which no item is loaded is read as an index for which something
is planned. -/
def Overshoots (s : Session) (position : Nat) (l : LoadedList) : Prop :=
  l.items.length ≤ position ∧ ∃ w, l.window = .index w
    ∧ w.plan s.policy (Index.add w.start (Index.wrapCount position)) ≠ []

/-- Nothing is asked for exactly when there are no ranges to ask for. -/
theorem fetchRanges_eq_iff (s : Session) (listId : ListId) (ranges : List Span) :
    s.fetchRanges listId ranges = (s, []) ↔ ranges = [] := by
  cases ranges with
  | nil => exact iff_of_true rfl rfl
  | cons range ranges =>
    refine iff_of_false (fun same => ?_) (List.cons_ne_nil _ _)
    cases congrArg Prod.snd same

/-- Nothing comes of an access to a position of an index list exactly when nothing is planned for
the index that it is read as. -/
theorem ensurePosition_eq_iff {w : IndexWindow} (unfinished : s.finished = false)
    (found : s.find? listId = some l) (loaded : l.window = .index w) (position : Nat) :
    s.ensurePosition listId position = (s, .ok [])
      ↔ w.plan s.policy (Index.add w.start (Index.wrapCount position)) = [] := by
  rw [ensurePosition_index unfinished found loaded, ← s.fetchRanges_eq_iff listId]
  simp only [Prod.ext_iff, Except.ok.injEq]

/-- An access to a position of a token list never does more than to fetch ahead. -/
theorem onlyPrefetches_of_token {w : TokenWindow} (unfinished : s.finished = false)
    (found : s.find? listId = some l) (loaded : l.window = .token w) (position : Nat) :
    s.OnlyPrefetches listId position l where
  idle h := by
    rw [ensurePosition_token unfinished found loaded, Policy.pagesAhead, if_pos h]
    rfl
  near r after new := by
    rw [ensurePosition_token unfinished found loaded] at after
    obtain ⟨own, d, ahead, page, asks⟩ :=
      (mem_pending_fetchPages s listId _ after).resolve_left new
    have within : position < l.items.length := by
      by_contra beyond
      rw [Policy.pagesAhead, if_pos (.inr (Nat.not_lt.1 beyond))] at ahead
      cases ahead
    rw [s.policy.pagesAhead_eq within, List.mem_filter, decide_eq_true_eq] at ahead
    refine ⟨own, d, ?_, ahead.2⟩
    rw [asks, loaded]
    exact .page

/-- An access to a position of an index list only fetches ahead if it does not overshoot. -/
theorem onlyPrefetches_of_index {w : IndexWindow} (measured : s.Measured)
    (found : s.find? listId = some l) (loaded : l.window = .index w) (position : Nat) :
    s.OnlyPrefetches listId position l ↔ ¬s.Overshoots position l := by
  have unfinished := measured.counts.sound.unfinished found
  have count := measured.counts.counted listId l w found loaded
  have start := measured.start found loaded
  have short := measured.count_le found loaded
  have near (within : position < l.items.length) {range : Span}
      (h : range ∈ w.plan s.policy (Index.add w.start (Index.wrapCount position))) :=
    IndexWindow.near_of_mem_plan start short (count ▸ within) h
  constructor
  · rintro only ⟨beyond, w', loaded', planned⟩
    cases loaded.symm.trans loaded'
    exact planned ((ensurePosition_eq_iff unfinished found loaded _).1 (only.idle (.inr beyond)))
  · intro keeps
    have unplanned (beyond : l.items.length ≤ position) :
        w.plan s.policy (Index.add w.start (Index.wrapCount position)) = [] := by
      by_contra planned
      exact keeps ⟨beyond, w, loaded, planned⟩
    refine ⟨fun idle => ?_, fun r after new => ?_⟩
    · refine (ensurePosition_eq_iff unfinished found loaded _).2 ?_
      rcases Nat.lt_or_ge position l.items.length with within | beyond
      -- no loaded item is near to anything for a distance of zero
      · have disabled := idle.resolve_right (Nat.not_le.2 within)
        refine List.eq_nil_iff_forall_not_mem.2 fun range h => ?_
        obtain ⟨d, -, close⟩ := near within h
        cases d <;> simp only [Policy.Near, disabled] at close <;> omega
      · exact unplanned beyond
    · rw [ensurePosition_index unfinished found loaded] at after
      obtain ⟨own, range, planned, asks⟩ :=
        (mem_pending_fetchRanges s listId _ after).resolve_left new
      have within : position < l.items.length := by
        by_contra beyond
        rw [unplanned (Nat.not_lt.1 beyond)] at planned
        cases planned
      obtain ⟨d, beyond, close⟩ := near within planned
      exact ⟨own, d, by rw [asks, loaded]; exact beyond, count ▸ close⟩

/-! ## Runs -/

/-- A new session is measured, as it has no list yet. -/
theorem measured_create {policy : Policy} (created : create policy = .ok s) : s.Measured := by
  refine ⟨counts_create created, ?_⟩
  obtain ⟨policy', -, rfl⟩ := eq_of_create created
  exact fun slot among => absurd among List.not_mem_nil

/-- A session is measured after a move that keeps its lists in memory. -/
theorem Measured.step {m : Move} (h : s.Measured) (stays : StaysInMemory s m) :
    (s.step m).Measured := ⟨h.counts.step stays.countable, stays⟩

/-- Every access to a position of a list of a session only fetches ahead exactly when it does not
overshoot. -/
def PositionsLaw (s : Session) : Prop :=
  ∀ listId l position, s.find? listId = some l →
    (s.OnlyPrefetches listId position l ↔ ¬s.Overshoots position l)

/-- In a measured session, an access only fetches ahead exactly when it does not overshoot. -/
theorem Measured.positionsLaw (h : s.Measured) : s.PositionsLaw := by
  intro listId l position found
  cases loaded : l.window with
  | index w => exact onlyPrefetches_of_index h found loaded position
  | token w =>
    refine iff_of_true (onlyPrefetches_of_token (h.counts.sound.unfinished found) found loaded _) ?_
    rintro ⟨-, w', loaded', -⟩
    cases loaded.symm.trans loaded'

/-- All along a run of a session that fits into memory, an access to a position asks for nothing but
what lies beyond the edges that the position is near to, exactly when it does not overshoot. -/
theorem positionsLaw_always {policy : Policy} (created : create policy = .ok s)
    {moves : List Move} (memory : s.Throughout StaysInMemory moves) :
    s.Always PositionsLaw moves := by
  rw [always_iff_trace]
  exact Trace.always_of_throughout (J := Measured) (fun _ h => h.positionsLaw)
    (fun _ _ h => h.step) (measured_create created) (throughout_iff_trace.1 memory)

/-- Sessions that fetch ahead of the last two items. -/
theorem created_pair : create ⟨10, 2⟩ = .ok { policy := ⟨10, 2⟩ } := rfl

/-- Of a list with three loaded items the first and then the last are looked at. -/
def lookingRun : List Move :=
  [.register "dynamicIndexList" (.obj [("listId", .str "l"), ("startIndex", Json.ofInt 5),
      ("minimumInclusiveIndex", Json.ofInt 5), ("items", .arr [.str "a", .str "b", .str "c"])]),
    .ensurePosition "l" 0, .ensurePosition "l" 2]

/-- Nothing lies before the first item, and what lies behind the last is fetched ahead. -/
theorem positionsLaw_always_lookingRun :
    (({ policy := ⟨10, 2⟩ } : Session).run lookingRun).requests.pending
      = [⟨"101", "l", .range 8 10⟩]
    ∧ ({ policy := ⟨10, 2⟩ } : Session).Always PositionsLaw lookingRun :=
  ⟨by decide, positionsLaw_always created_pair (by decide)⟩

/-- The one item that a list begins with. -/
def firstItem : LoadedList := ⟨"l", [.str "a"], .index ⟨none, none, 0, 1, []⟩⟩

/-- A session that does not fetch ahead and knows of one item. -/
def knowingOne : Session :=
  ({} : Session).run [.register "dynamicIndexList" (.obj [("listId", .str "l"),
    ("startIndex", Json.ofInt 0), ("items", .arr [.str "a"])])]

/-- An access to the position behind the last item asks for a chunk, though nothing is loaded there
and nothing is ever to be fetched ahead. -/
theorem onlyPrefetches_broken_behindLast :
    Reachable knowingOne ∧ knowingOne.find? "l" = some firstItem
    ∧ knowingOne.policy.prefetchDistance = 0 ∧ firstItem.items.length ≤ 1
    ∧ (knowingOne.ensurePosition "l" 1).2 = .ok ["101"]
    ∧ (knowingOne.ensurePosition "l" 1).1.requests.pending = [⟨"101", "l", .range 1 10⟩]
    ∧ ¬knowingOne.OnlyPrefetches "l" 1 firstItem :=
  ⟨reachable_default.run _, by decide, rfl, by decide, by decide, by decide,
    fun only => absurd (congrArg Prod.snd (only.idle (.inl rfl))) (by decide)⟩

end Session

end ListSync
