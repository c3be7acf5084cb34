import ListSync.Proofs.Source

/-!
# Bounds that are found out

A client loads a list from a source which answers every request with the items that it has in the
range, and which never says where the list begins and ends. The client finds that out from answers
without items: what it has asked for touches the loaded items, so that there is nothing beyond the
edge at which it was asked.

Accesses and answers follow each other in any order, and an answer may come more than once. The
loaded items are those of the source over the window all along. The bounds are right all along
exactly when no answer misleads the client (`bounds_found_iff`). An answer does when it has no items
and was asked for more items than there are positive indices: the client reads the count as a
negative one, so that the range seems to lie before the loaded items as well as behind them.
-/

namespace ListSync

namespace Source

variable {src : Source} {token : CorrelationToken} {listId : ListId} {start : Int} {count : Nat}

/-- All items have an index, and so has what comes behind them. -/
structure Indexed (src : Source) : Prop where
  first : Index.InRange src.first
  stop : src.stop ≤ Index.greatest

/-- The answer to a request for `count` items from `start` on: those that there are, and no
bounds. -/
def answer (src : Source) (token : CorrelationToken) (listId : ListId) (start : Int)
    (count : Nat) : RangeAnswer where
  listId
  token
  version := none
  start := if (src.between start (start + count)).isEmpty then start else max start src.first
  minimum := none
  maximum := none
  items := src.between start (start + count)

/-- What a source answers are items that it has there. -/
theorem offers_answer (src : Source) (token : CorrelationToken) (listId : ListId) (start : Int)
    (count : Nat) : src.Offers (src.answer token listId start count).start
      (src.answer token listId start count).items := by
  have length := src.length_between start (start + count)
  unfold answer Offers
  cases empty : (src.between start (start + count)).isEmpty with
  | true => exact .inl (List.isEmpty_iff.1 empty)
  | false =>
    have some : (src.between start (start + count)).length ≠ 0 := by
      rw [Ne, List.length_eq_zero_iff, ← List.isEmpty_iff, empty]
      exact Bool.false_ne_true
    have inner : max start src.first + (src.between start (start + count)).length
        = min (start + count) src.stop := by omega
    simp only [Bool.false_eq_true, if_false]
    rw [inner, ← between_eq_inner]
    exact .inr ⟨Int.le_max_right .., Int.min_le_right .., rfl⟩

/-- What a source with indexed items answers fits the machine. -/
theorem Indexed.inRange_answer (indexed : src.Indexed) (token : CorrelationToken)
    (listId : ListId) (inRange : Index.InRange start) (count : Nat) :
    (src.answer token listId start count).InRange
      ∧ (src.answer token listId start count).start
        + (src.answer token listId start count).items.length ≤ Index.greatest := by
  have ⟨first, stop⟩ := indexed
  rcases src.offers_answer token listId start count with none | ⟨-, last, -⟩
  · have start_eq : (src.answer token listId start count).start = start :=
      if_pos (List.isEmpty_iff.2 none)
    rw [none, start_eq]
    refine ⟨⟨?_, by rintro _ ⟨⟩, by rintro _ ⟨⟩⟩, by simpa using inRange.2⟩
    rw [start_eq]
    exact inRange
  · refine ⟨⟨?_, by rintro _ ⟨⟩, by rintro _ ⟨⟩⟩, Int.le_trans last stop⟩
    refine ⟨?_, by omega⟩
    unfold answer
    dsimp only
    split
    · exact inRange.1
    · exact Int.le_trans inRange.1 (Int.le_max_left ..)

/-- Where a bound of a window is known, it is that of the source. -/
structure Bounds (src : Source) (w : IndexWindow) : Prop where
  minimum : ∀ lo ∈ w.minimum, lo = src.first
  maximum : ∀ hi ∈ w.maximum, hi = src.stop

/-- Bounds that are those of the source stay so in a window that has the same ones. -/
theorem Bounds.keep {w w' : IndexWindow} (bounds : src.Bounds w) (minimum : w'.minimum = w.minimum)
    (maximum : w'.maximum = w.maximum) : src.Bounds w' :=
  ⟨minimum ▸ bounds.minimum, maximum ▸ bounds.maximum⟩

end Source

/-- A client that loads a list from a source, with the requests that it has made. -/
structure Discovery where
  listId : ListId
  client : Session
  asked : List FetchRequest := []

namespace Discovery

/-- What can happen. -/
inductive Move where
  /-- The client wants an index. -/
  | want (i : Int) (inRange : Index.InRange i)
  /-- The answer to the request at a place arrives. -/
  | answer (place : Nat)

/-- The client after a move. -/
def step (src : Source) (d : Discovery) : Move → Discovery
  | .want i _ =>
    let (client, requests) := d.client.want d.listId i
    { d with client, asked := d.asked ++ requests }
  | .answer place =>
    match d.asked[place]? with
    | some (.range token listId start count) =>
      { d with client :=
          d.client.receive (.fetched (.range (src.answer token listId start count)) none) }
    | _ => d

/-- The client once a session has registered a list. -/
def register (s : Session) (p : IndexListing) : Discovery where
  listId := p.listId
  client := (s.register Kind.index.name (Listing.index p).toJson).1

/-- The loaded items are those of the source over the window. -/
def ItemsLaw (src : Source) (d : Discovery) : Prop :=
  ∃ l w, d.client.find? d.listId = some l ∧ l.window = .index w ∧ src.Excerpt l w

/-- The known bounds of the list are those of the source. -/
def BoundsLaw (src : Source) (d : Discovery) : Prop :=
  ∀ l w, d.client.find? d.listId = some l → l.window = .index w → src.Bounds w

/-- Whether an answer makes the client take its first item for the first one of the list while it is
not: it comes without items to an outstanding request for more items than there are positive
indices. -/
def misleads (src : Source) (d : Discovery) : Move → Bool
  | .want .. => false
  | .answer place =>
    match d.asked[place]?, (d.client.find? d.listId).map LoadedList.window with
    | some (.range token _ start count), some (.index w) =>
      Index.greatest < count && (src.between start (start + count)).isEmpty
        && (d.client.entry d.listId).requests.any (·.token = token)
        && w.minimum.isNone && decide (w.start ≠ src.first)
    | _, _ => false

variable {src : Source} {d : Discovery} {l : LoadedList} {w : IndexWindow}

/-- The client shows an excerpt of the source and loads more of it. -/
structure Follows (src : Source) (d : Discovery) (l : LoadedList) (w : IndexWindow) : Prop where
  loads : d.client.Loads d.listId d.asked l w
  excerpt : src.Excerpt l w

/-- The answer to a request has no items, and makes the client take its first item for the first one
of the source. -/
def Misleading (src : Source) (d : Discovery) (w : IndexWindow) (token : CorrelationToken)
    (start : Int) (count : Nat) : Prop :=
  Index.greatest < count ∧ src.between start (start + count) = [] ∧ d.client.Open d.listId token
    ∧ w.minimum = none ∧ w.start ≠ src.first

/-- Whether an answer misleads the client can be told from its window and the request. -/
theorem Follows.misleads_iff (follows : Follows src d l w) {place : Nat} {token : CorrelationToken}
    {listId : ListId} {start : Int} {count : Nat}
    (asked : d.asked[place]? = some (.range token listId start count)) :
    misleads src d (.answer place) ↔ Misleading src d w token start count := by
  have window : (d.client.find? d.listId).map LoadedList.window = some (.index w) := by
    rw [follows.loads.found, Option.map_some, follows.loads.loaded]
  simp [misleads, Misleading, asked, window, Session.Open, and_assoc]

/-- Where there is nothing in a range that touches the loaded items, these reach to that edge of the
source at which the range lies. -/
theorem Follows.edge_of_empty (follows : Follows src d l w) {r : Request} {start : Int}
    {count : Nat} (touches : Touches w r start count)
    (empty : src.between start (start + count) = []) :
    (w.stop ≤ start → w.stop = src.stop) ∧ (start + count ≤ w.start → w.start = src.first) := by
  obtain ⟨first, last, -⟩ := follows.excerpt
  obtain ⟨-, -, proper, -, behind, before⟩ := touches
  have stop := follows.loads.stop
  have none := src.length_between start (start + count)
  rw [empty, List.length_nil] at none
  constructor <;> intro beyond <;> omega

/-- After an answer without items a known maximum is right. -/
theorem Follows.maximum_of_empty (follows : Follows src d l w) (bounds : src.Bounds w) {r : Request}
    {start : Int} {count : Nat} (touches : Touches w r start count)
    (empty : src.between start (start + count) = []) :
    ∀ hi ∈ (w.learnBounds (Target.span start count) true none none).2, hi = src.stop := by
  intro hi known
  cases h : w.maximum with
  | some hi' => exact bounds.maximum hi (by simpa [IndexWindow.learnBounds, h] using known)
  | none =>
    obtain ⟨beyond, rfl⟩ : w.stop ≤ start ∧ w.stop = hi := by
      simpa [IndexWindow.learnBounds, h, Target.span] using known
    exact (follows.edge_of_empty touches empty).1 beyond

/-- After an answer without items the known bounds are right, unless a count beyond the positive
indices makes the client take its first item for the first one of the source. -/
theorem Follows.bounds_iff_of_empty (follows : Follows src d l w) (bounds : src.Bounds w)
    {r : Request} {start : Int} {count : Nat} (touches : Touches w r start count)
    (empty : src.between start (start + count) = []) {next : IndexWindow}
    (learnt : (next.minimum, next.maximum)
      = w.learnBounds (Target.span start count) true none none) :
    src.Bounds next ↔ ¬(Index.greatest < count ∧ w.minimum = none ∧ w.start ≠ src.first) := by
  have upper := follows.maximum_of_empty bounds touches empty
  rw [← learnt] at upper
  have minimum := congrArg Prod.fst learnt
  cases h : w.minimum with
  | some lo =>
    have kept : next.minimum = w.minimum := by simpa [IndexWindow.learnBounds, h] using minimum
    exact ⟨fun _ => by simp, fun _ => ⟨kept ▸ bounds.minimum, upper⟩⟩
  | none =>
    have lower : next.minimum
        = if Index.add start (Index.wrapCount count) ≤ w.start then some w.start else none := by
      simpa [IndexWindow.learnBounds, h, Target.span] using minimum
    rcases Int.lt_or_le Index.greatest count with far | near
    -- the count wraps, and the request seems to end at the least index, before the loaded items
    · rw [Index.stop_of_greatest_lt touches.first touches.room far,
        if_pos follows.loads.placed.first.1] at lower
      constructor
      · rintro ⟨right, -⟩ ⟨-, -, wrong⟩
        exact wrong (right w.start lower)
      · intro plain
        refine ⟨?_, upper⟩
        rw [lower]
        rintro lo ⟨⟩
        exact Decidable.byContradiction fun wrong => plain ⟨far, rfl, wrong⟩
    · rw [IndexWindow.stop_of_fetched ⟨touches.first, near, touches.room⟩] at lower
      -- nothing wraps: a lower bound is learnt only where the source has nothing before the window
      refine ⟨fun _ far => absurd far.1 (Int.not_lt.2 near), fun _ => ⟨?_, upper⟩⟩
      rw [lower]
      split
      · rename_i beyond
        rintro lo ⟨⟩
        exact (follows.edge_of_empty touches empty).2 beyond
      · rintro lo ⟨⟩

/-- Bounds that come without any change nothing unless the answer has no items. -/
theorem learnBounds_of_items (w : IndexWindow) (asked : Span) :
    w.learnBounds asked false none none = (w.minimum, w.maximum) := by
  simp [IndexWindow.learnBounds]

/-- An access neither moves the loaded items nor finds out anything. -/
theorem Follows.want (follows : Follows src d l w) {i : Int} (inRange : Index.InRange i) :
    ∃ l' w', Follows src (step src d (.want i inRange)) l' w' ∧ w'.minimum = w.minimum
      ∧ w'.maximum = w.maximum := by
  obtain ⟨rs, taken, -, -, -, loads⟩ := follows.loads.want inRange
  rw [← taken] at loads
  exact ⟨_, _, ⟨loads, follows.excerpt.keep rfl rfl rfl⟩, rfl, rfl⟩

/-- However the client receives an answer of the source, it shows an excerpt of the source, and
bounds that are right stay so exactly when the answer does not mislead. -/
theorem Follows.receipt (indexed : src.Indexed) (follows : Follows src d l w)
    {token : CorrelationToken} {start : Int} {count : Nat} (inRange : Index.InRange start)
    {next : Session} {outcome : Except Rejection Applied} {l' : LoadedList} {w' : IndexWindow}
    (receipt : d.client.Receipt d.listId l w (src.answer token d.listId start count) start count
      next outcome l' w') :
    src.Excerpt l' w'
      ∧ (src.Bounds w → (src.Bounds w' ↔ ¬Misleading src d w token start count)) := by
  obtain ⟨sendable, room⟩ := indexed.inRange_answer token d.listId inRange count
  have cleared : src.Excerpt l (w.clear (Target.span start count)) :=
    follows.excerpt.keep rfl rfl rfl
  cases receipt with
  | late why settled entry =>
    refine ⟨follows.excerpt, fun bounds => iff_of_true bounds ?_⟩
    rintro ⟨-, -, ⟨r, pending, named⟩, -⟩
    exact settled r pending named
  | absorbed applied pending named touches absorbed entry =>
    refine ⟨cleared.absorbed follows.loads.placed sendable.start room (src.offers_answer ..)
      absorbed _, fun bounds => ?_⟩
    have learnt := IndexWindow.bounds_of_absorb absorbed
    by_cases empty : src.between start (start + count) = []
    · have none : (src.answer token d.listId start count).items.length = 0 :=
        congrArg List.length empty
      rw [none, decide_eq_true rfl] at learnt
      rw [follows.bounds_iff_of_empty bounds touches empty learnt]
      exact not_congr ⟨fun ⟨far, h⟩ => ⟨far, empty, ⟨_, pending, named⟩, h⟩,
        fun ⟨far, _, _, h⟩ => ⟨far, h⟩⟩
    · have nonempty : (src.answer token d.listId start count).items.length ≠ 0 :=
        mt List.length_eq_zero_iff.1 empty
      rw [decide_eq_false nonempty] at learnt
      obtain ⟨minimum, maximum⟩ := Prod.mk.inj (learnt.trans (learnBounds_of_items _ _))
      exact iff_of_true (bounds.keep minimum maximum) fun misled => empty misled.2.1
  | detached why pending named touches absorbed entry =>
    refine ⟨follows.excerpt.keep rfl rfl rfl, fun bounds => iff_of_true (bounds.keep rfl rfl) ?_⟩
    -- an answer without items is not refused
    rintro ⟨-, empty, -⟩
    have none : (src.answer token d.listId start count).items.length = 0 :=
      congrArg List.length empty
    obtain ⟨p, next, accepted⟩ := IndexWindow.absorb_empty (w := w.clear _)
      (follows.loads.fits.withInFlight _ l.window).valid follows.loads.fits.start sendable.start
      (Target.span start count)
    rw [none] at absorbed
    cases accepted.symm.trans absorbed

/-- An answer leaves bounds that are right so exactly when it does not mislead. -/
theorem Follows.answer (indexed : src.Indexed) (follows : Follows src d l w) (place : Nat) :
    ∃ l' w', Follows src (step src d (.answer place)) l' w'
      ∧ (src.Bounds w → (src.Bounds w' ↔ ¬misleads src d (.answer place))) := by
  cases asked : d.asked[place]? with
  | none =>
    refine ⟨l, w, ?_, ?_⟩
    · rwa [step, asked]
    · intro bounds
      simp [misleads, asked, bounds]
  | some f =>
    have taken : f ∈ d.asked := List.mem_of_getElem? asked
    obtain ⟨start, count, request, inRange, -, -⟩ := follows.loads.proper f taken
    generalize f.token = token at request
    subst request
    obtain ⟨sendable, room⟩ := indexed.inRange_answer token d.listId inRange count
    obtain ⟨l', w', receipt, loads⟩ := follows.loads.receive
      (a := src.answer token d.listId start count) sendable rfl room taken
    obtain ⟨excerpt, right⟩ := follows.receipt indexed inRange receipt
    refine ⟨l', w', ⟨?_, excerpt⟩, fun bounds =>
      (right bounds).trans (not_congr (follows.misleads_iff asked).symm)⟩
    rw [step, asked]
    exact loads

/-- The client follows the source through every move. Bounds that are right stay so exactly when the
move does not mislead. -/
theorem Follows.step (indexed : src.Indexed) (follows : Follows src d l w) (m : Move) :
    ∃ l' w', Follows src (step src d m) l' w'
      ∧ (src.Bounds w → (src.Bounds w' ↔ ¬misleads src d m)) := by
  cases m with
  | want i inRange =>
    obtain ⟨l', w', follows', minimum, maximum⟩ := follows.want inRange
    exact ⟨l', w', follows',
      fun bounds => iff_of_true (bounds.keep minimum maximum) Bool.false_ne_true⟩
  | answer place => exact follows.answer indexed place

/-- A client that follows a source has loaded items of the source. -/
theorem Follows.itemsLaw (follows : Follows src d l w) : ItemsLaw src d :=
  ⟨l, w, follows.loads.found, follows.loads.loaded, follows.excerpt⟩

/-- The bounds that a client knows are those of its window. -/
theorem Follows.boundsLaw_iff (follows : Follows src d l w) : BoundsLaw src d ↔ src.Bounds w := by
  constructor
  · intro law
    exact law l w follows.loads.found follows.loads.loaded
  · intro bounds l' w' found loaded
    obtain rfl := Option.some.inj (follows.loads.found.symm.trans found)
    cases follows.loads.loaded.symm.trans loaded
    exact bounds

/-- A session that has registered items of a source follows the source. -/
theorem follows_register {s : Session} {p : IndexListing} {stop : Int} {handle : Handle}
    (reachable : s.Reachable) (inRange : (Listing.index p).InRange)
    (version : ∀ v ∈ p.version, v ≤ maxCount) (first : src.first ≤ p.start)
    (ordered : p.start ≤ stop) (last : stop ≤ src.stop) (items : p.items = src.between p.start stop)
    (registered : (s.register Kind.index.name (Listing.index p).toJson).2 = .ok handle) :
    Follows src (register s p) p.list p.window := by
  obtain ⟨unfinished, sound⟩ := Session.fault?_of_registered inRange version registered
  have ends : p.start + p.items.length = stop := by
    rw [items]
    exact Source.length_between_of_le first ordered last
  refine ⟨Session.loads_register reachable.sound unfinished inRange version sound, first, ?_,
    ?_⟩
  · show p.start + p.items.length ≤ src.stop
    rwa [ends]
  · show p.items = src.between p.start (p.start + p.items.length)
    rw [ends, items]

/-- A session registers some items of a source, without bounds. However accesses and answers then
follow each other, the loaded items are those of the source over the window. And the known bounds
are those of the source all along exactly when no answer misleads. -/
theorem bounds_found_iff {src : Source} (indexed : src.Indexed) {s : Session}
    (reachable : s.Reachable) {p : IndexListing} {stop : Int} {handle : Handle}
    (inRange : (Listing.index p).InRange) (version : ∀ v ∈ p.version, v ≤ maxCount)
    (unbounded : p.minimum = none ∧ p.maximum = none) (first : src.first ≤ p.start)
    (ordered : p.start ≤ stop) (last : stop ≤ src.stop) (items : p.items = src.between p.start stop)
    (registered : (s.register Kind.index.name (Listing.index p).toJson).2 = .ok handle)
    (moves : List Move) :
    Trace.Always (step src) (ItemsLaw src) (register s p) moves
    ∧ (Trace.Always (step src) (BoundsLaw src) (register s p) moves
      ↔ Trace.Throughout (step src) (fun d m => ¬misleads src d m) (register s p) moves) := by
  have follows : Follows src (register s p) p.list p.window :=
    follows_register reachable inRange version first ordered last items registered
  have bounds : src.Bounds p.window := by
    constructor
    · show ∀ lo ∈ p.minimum, _
      simp [unbounded.1]
    · show ∀ hi ∈ p.maximum, _
      simp [unbounded.2]
  constructor
  -- the items are those of the source whatever the bounds are, so this invariant says nothing of
  -- them
  · refine Trace.always_of_invariant (J := fun d => ∃ l w, Follows src d l w) ?_ ?_
      ⟨_, _, follows⟩ moves
    · rintro d ⟨l, w, follows⟩
      exact follows.itemsLaw
    · rintro d m ⟨l, w, follows⟩
      obtain ⟨l', w', follows', -⟩ := follows.step indexed m
      exact ⟨l', w', follows'⟩
  -- right bounds stay right over a move exactly if that does not mislead
  · refine Trace.always_iff_throughout (J := fun d => ∃ l w, Follows src d l w ∧ src.Bounds w)
      ?_ ?_ ?_ ⟨_, _, follows, bounds⟩ moves
    · rintro d ⟨l, w, follows, bounds⟩
      exact follows.boundsLaw_iff.2 bounds
    · rintro d m ⟨l, w, follows, bounds⟩ plain
      obtain ⟨l', w', follows', right⟩ := follows.step indexed m
      exact ⟨l', w', follows', (right bounds).2 plain⟩
    · rintro d m ⟨l, w, follows, bounds⟩ law
      obtain ⟨l', w', follows', right⟩ := follows.step indexed m
      exact (right bounds).1 (follows'.boundsLaw_iff.1 law)

/-- A source of two letters. -/
def twoLetters : Source := ⟨-3, [.str "a", .str "b"]⟩

/-- The two letters have indices, and so has what comes behind them. -/
theorem indexed_twoLetters : twoLetters.Indexed := ⟨by decide, by decide⟩

/-- The second of the two letters, as a host registers it. -/
def secondLetter : IndexListing := ⟨"l", none, -2, none, none, [.str "b"]⟩

/-- What lies on either side of the loaded items is asked for, and the answers come in the other
order, one of them twice. Then the client looks before the first letter too. -/
def bothEdges : List Move :=
  [.want (-3) (by decide), .want 4 (by decide), .answer 1, .answer 0, .answer 1,
    .want (-4) (by decide), .answer 2]

/-- In this way the client finds out both edges. -/
theorem bounds_found_bothEdges :
    Trace.Always (step twoLetters) (ItemsLaw twoLetters) (register {} secondLetter) bothEdges
    ∧ Trace.Always (step twoLetters) (BoundsLaw twoLetters) (register {} secondLetter) bothEdges
    ∧ ((bothEdges.foldl (step twoLetters) (register {} secondLetter)).client.find? "l").map
        (·.window) = some (.index ⟨some (-3), some (-1), -3, 2, []⟩) := by
  have registered : (({} : Session).register Kind.index.name
      (Listing.index secondLetter).toJson).2 = .ok 0 := by decide
  have last : -1 ≤ twoLetters.stop := by decide
  have found := bounds_found_iff indexed_twoLetters Session.reachable_default
    ⟨by decide, by decide, by decide⟩ (by decide) ⟨rfl, rfl⟩ (by decide) (by decide) last rfl
    registered bothEdges
  exact ⟨found.1, found.2.2 (by decide), by decide⟩

/-- An index is wanted that is far away. More items lie between than there are positive indices, and
the source has none of them. -/
def farIndex : List Move := [.want 9223372036854775806 (by decide), .answer 0]

/-- The client then takes the second letter for the first item of the source. -/
theorem bounds_wrong_farIndex :
    twoLetters.Indexed ∧ secondLetter.items = twoLetters.between (-2) (-1)
    ∧ (({} : Session).register Kind.index.name (Listing.index secondLetter).toJson).2 = .ok 0
    ∧ ¬Trace.Always (step twoLetters) (BoundsLaw twoLetters) (register {} secondLetter)
        farIndex := by
  refine ⟨indexed_twoLetters, rfl, by decide, ?_⟩
  rintro ⟨-, -, law⟩
  -- the range of which the count wrapped is not even cleared
  have bounds := law ⟨"l", [.str "b"],
    .index ⟨some (-2), some (-1), -2, 1, [⟨-1, 9223372036854775807⟩]⟩⟩ _ (by decide) rfl
  exact absurd (bounds.minimum _ rfl) (by decide)

end Discovery

end ListSync
