import ListSync.Proofs.Plan
import ListSync.Proofs.Session.Effect

/-!
# What an access asks for

What is planned for an access to an index (`IndexWindow.Plans`): nothing outside the bounds, nothing
that is loaded or being fetched, and for an index that is missing the range that fills the gap.
`fetches_fill_gaps` says so for every valid window and every index. Of a session it says that an
access asks for what is planned and nothing else (`fetches_ensureIndex`), and for nothing when it is
repeated, since each range is marked before the access ends (`ensureIndex_again`).
-/

namespace ListSync

/-- Ranges are what to fetch when an index is accessed: each lies beside the loaded items and within
the bounds, and together they reach what is missing. -/
structure IndexWindow.Plans (w : IndexWindow) (p : Policy) (i : Int) (ranges : List Span) :
    Prop where
  nonempty : ∀ range ∈ ranges, range.start < range.stop
  bounded : ∀ range ∈ ranges,
    (∀ lo ∈ w.minimum, lo ≤ range.start) ∧ ∀ hi ∈ w.maximum, range.stop ≤ hi
  borders : ∀ range ∈ ranges, range.stop = w.start ∨ range.start = w.stop
  unloaded : ∀ range ∈ ranges, range.Apart w.span
  misses : ∀ range ∈ ranges, ∀ flying ∈ w.inFlight,
    range.stop ≤ flying.start ∨ flying.stop ≤ range.start
  apart : ranges.Pairwise Span.Apart
  outside : w.inBounds i = false → ranges = []
  /-- Only a range in flight can keep the gap from being filled. -/
  missing : w.inBounds i → ¬w.span.Covers i → i < Index.greatest →
    ∃ range, w.FillsGap p i range ∧ (ranges = [range]
      ∨ ranges = [] ∧ ∃ flying ∈ w.inFlight,
        range.start < flying.stop ∧ flying.start < range.stop)

namespace Session

variable {s : Session} {i : Int}

/-- Ranges of an index list were asked for: each has an outstanding request of its own, whose token
is answered, and is marked as in flight. Nothing else has changed. -/
def Fetches (s : Session) (listId : ListId) (w : IndexWindow) (ranges : List Span)
    (done : Session × Except Rejection (List CorrelationToken)) : Prop :=
  ∃ rs : List Request,
    rs.map (·.target) = ranges.map (fun range => Target.range range.start range.length)
    ∧ done.2 = .ok (rs.map (·.token))
    ∧ Asked s listId (.index { w with inFlight := w.inFlight ++ ranges }) rs done.1

/-- An access to an index list asks for the planned ranges. -/
theorem fetches_ensureIndex (sound : s.core.Sound) {listId : ListId} {l : LoadedList}
    {w : IndexWindow} (found : s.find? listId = some l) (loaded : l.window = .index w) (i : Int) :
    s.Fetches listId w (w.plan s.policy i) (s.ensureIndex listId i) := by
  obtain ⟨rs, targets, tokens, asked⟩ := asked_fetchRanges sound found loaded (w.plan s.policy i)
  rw [ensureIndex_eq (sound.unfinished found) found loaded i]
  exact ⟨rs, targets, congrArg Except.ok tokens, asked⟩

/-- An access that is repeated right away asks for nothing and changes nothing. If it was refused,
it is refused again. -/
theorem ensureIndex_again (sound : s.core.Sound) (listId : ListId) (i : Int) :
    (s.ensureIndex listId i).1.ensureIndex listId i
      = ((s.ensureIndex listId i).1, (s.ensureIndex listId i).2.map fun _ => []) := by
  cases unfinished : s.finished with
  | true => simp only [ensureIndex, unfinished, if_true, Except.map]
  | false =>
    cases hf : s.findKind listId .index with
    | error why =>
      simp only [ensureIndex, unfinished, hf, Bool.false_eq_true, if_false, Except.map]
    | ok l =>
      obtain ⟨found, kind⟩ := findKind_eq_ok_iff.1 hf
      cases loaded : l.window with
      | token w =>
        rw [LoadedList.kind, loaded] at kind
        cases kind
      | index w =>
        obtain ⟨rs, -, -, asked⟩ := asked_fetchRanges sound found loaded (w.plan s.policy i)
        have again := ensureIndex_eq (asked.finished.trans unfinished) (asked.found found) rfl i
        rw [ensureIndex_eq unfinished found loaded, again, asked.policy, w.plan_marked]
        rfl

/-- The ranges planned for an access lie beside the loaded items, within the bounds and apart from
all that is in flight; an index that is missing lies in the one range that is planned for it. A
session with such a window asks for exactly these ranges, and no session asks again when the access
is repeated. -/
theorem fetches_fill_gaps {w : IndexWindow} (p : Policy) (valid : w.Valid)
    (start : Index.InRange w.start) (inRange : Index.InRange i) :
    w.Plans p i (w.plan p i) ∧ ∀ s, Reachable s → ∀ listId,
      (∀ l, s.find? listId = some l → l.window = .index w → s.policy = p →
        s.Fetches listId w (w.plan p i) (s.ensureIndex listId i))
      ∧ (s.ensureIndex listId i).1.ensureIndex listId i
        = ((s.ensureIndex listId i).1, (s.ensureIndex listId i).2.map fun _ => []) := by
  refine ⟨?_, fun s reachable listId => ⟨?_, ensureIndex_again reachable.sound listId i⟩⟩
  · exact {
      nonempty := fun _ h => IndexWindow.nonempty_of_plan h
      bounded := fun _ h => IndexWindow.bounded_of_plan valid start.2 inRange h
      borders := fun _ h => IndexWindow.borders_of_plan inRange h
      unloaded := fun _ h => IndexWindow.apart_loaded_of_plan inRange h
      misses := fun _ h _ hf => IndexWindow.misses_of_plan h hf
      apart := IndexWindow.pairwise_plan start.2 inRange
      outside := IndexWindow.plan_of_outside valid
      missing := IndexWindow.plan_of_missing start inRange }
  · rintro l found loaded rfl
    exact fetches_ensureIndex reachable.sound found loaded i

/-- A window near the first index there is, of which a chunk behind it is being fetched. -/
def nearTheStart : IndexWindow := ⟨none, some 100, Index.least + 3, 5, [⟨Index.least + 8, 30⟩]⟩

/-- Five items near the first index there is are registered, and one far behind them is wanted. -/
def wantFarBehind : List Move :=
  [.register "dynamicIndexList" (.obj [("listId", .str "l"),
      ("startIndex", Json.ofInt (Index.least + 3)), ("maximumExclusiveIndex", Json.ofInt 100),
      ("items", .arr (List.replicate 5 .null))]),
    .ensureIndex "l" 29 (by decide)]

/-- What lies before the window is less than a chunk, and what lies behind it is on its way. -/
theorem fetches_fill_gaps_nearTheStart :
    nearTheStart.Valid ∧ Index.InRange nearTheStart.start
    ∧ nearTheStart.plan {} (Index.least + 1) = [⟨Index.least, Index.least + 3⟩]
    ∧ nearTheStart.plan {} 50 = []
    ∧ nearTheStart.Plans {} (Index.least + 1) [⟨Index.least, Index.least + 3⟩]
    ∧ nearTheStart.Plans {} 50 []
    ∧ (({} : Session).run wantFarBehind).find? "l"
      = some ⟨"l", List.replicate 5 .null, .index nearTheStart⟩
    ∧ (({} : Session).run wantFarBehind).Fetches "l" nearTheStart
        [⟨Index.least, Index.least + 3⟩]
        ((({} : Session).run wantFarBehind).ensureIndex "l" (Index.least + 1)) := by
  have valid : nearTheStart.Valid := by decide
  have start : Index.InRange nearTheStart.start := by decide
  have found : (({} : Session).run wantFarBehind).find? "l"
      = some ⟨"l", List.replicate 5 .null, .index nearTheStart⟩ := by decide
  have before := fetches_fill_gaps (i := Index.least + 1) {} valid start (by decide)
  have behind := fetches_fill_gaps (i := 50) {} valid start (by decide)
  exact ⟨valid, start, by decide, by decide, before.1, behind.1, found,
    (before.2 _ (reachable_default.run wantFarBehind) "l").1 _ found rfl rfl⟩

end Session

end ListSync
