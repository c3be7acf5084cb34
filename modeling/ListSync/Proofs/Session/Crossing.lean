import ListSync.Proofs.Plan
import ListSync.Proofs.Session.Feed
import ListSync.Proofs.Session.Merging
import ListSync.Proofs.Session.Refusal

/-!
# Batches and answers that cross

While a batch is on its way to a session, so may be the answer to a fetch. It does not matter which
of them arrives first, as long as the one that arrives second addresses the items as they are by
then: an answer to a request behind the loaded items moves along with their end, and so does the
maximum that comes with any answer; the edits of a batch move along with items that come in before
those that they address (`batch_and_answer_commute`).

For the window this is `IndexWindow.absorb_adjust`, for the items `Edit.spliceAll_behind`.
-/

namespace ListSync

namespace IndexWindow

variable {w : IndexWindow} {start : Int} {count : Nat}

/-- A window apart from what is in flight. -/
def still (w : IndexWindow) : IndexWindow := { w with inFlight := [] }

theorem valid_still_iff (w : IndexWindow) : w.still.Valid ↔ w.Valid := by
  rw [← fault?_eq_none_iff, ← fault?_eq_none_iff]
  rfl

/-- A window counts as many items as it is adjusted to. -/
theorem count_adjust {n : Nat} {d : Int} (count : (w.count : Int) + d = n)
    (fits : (n : Int) ≤ Index.greatest) : (w.adjust d).count = n := by
  simp only [adjust, count, maxCount, Index.greatest] at fits ⊢
  omega

/-- The end of a window moves with the batch as far as the items do. -/
theorem stop_adjust {n : Nat} {d : Int} (count : (w.count : Int) + d = n)
    (placed : Index.Placed w.start n) : (w.adjust d).stop = w.start + n := by
  have counted := count_adjust count placed.short
  have placed' : Index.Placed (w.adjust d).start (w.adjust d).count := counted ▸ placed
  rw [stop_eq placed', counted]
  rfl

/-- The loaded and the fetched items begin where either of them does, unless nothing is fetched from
before the loaded ones. -/
theorem start_hull (behind : count = 0 → w.start ≤ start) :
    (w.hull start count).start = min start w.start := by
  unfold hull
  split
  · rename_i empty
    exact (Int.min_eq_right (behind empty)).symm
  · exact Int.min_comm ..

/-- A fetched range puts all its items to the loaded ones, and goes on doing so once the window is
adjusted, from where the range and its request have moved then. -/
structure Moved (w : IndexWindow) (d : Int) (count : Nat) (start start' : Int)
    (asked asked' : Span) : Prop where
  joins : ¬w.Apart start count
  joins' : ¬(w.adjust d).Apart start' count
  whole : (w.hull start count).stop - (w.hull start count).start = w.count + count
  first : ((w.adjust d).hull start' count).start = (w.hull start count).start
  last : ((w.adjust d).hull start' count).stop = (w.hull start count).stop + d
  before : asked'.stop ≤ w.start ↔ asked.stop ≤ w.start
  behind : (w.adjust d).stop ≤ asked'.start ↔ w.stop ≤ asked.start

/-- A range behind the loaded items moves with their end. -/
theorem moved_behind {d : Int} {n : Nat} {asked asked' : Span} (edited : (w.count : Int) + d = n)
    (fits : Index.Placed w.start n) (start : asked.start = w.stop)
    (start' : asked'.start = w.start + n)
    (before : asked'.stop ≤ w.start ↔ asked.stop ≤ w.start) :
    w.Moved d count (w.start + w.count) (w.start + n) asked asked' := by
  have counted := count_adjust edited fits.short
  have first : (w.adjust d).start = w.start := rfl
  -- the answer adjoins the end of the window, which the batch moves
  refine ⟨?joins, ?joins', ?whole, ?first, ?last, before, ?behind⟩
  case joins =>
    simp only [Apart]
    omega
  case joins' =>
    simp only [Apart, first, counted]
    omega
  case whole =>
    unfold hull
    split <;> dsimp only <;> omega
  case first =>
    simp only [hull, first, counted]
    split <;> dsimp only; omega
  case last =>
    simp only [hull, first, counted]
    split <;> dsimp only <;> omega
  case behind =>
    rw [stop_adjust edited fits, start, start']
    simp

/-- A range before the loaded items stays where it is. -/
theorem moved_before {d : Int} {n : Nat} {asked : Span}
    (placed : Index.Placed w.start w.count) (edited : (w.count : Int) + d = n)
    (fits : Index.Placed w.start n) (adjoins : start + count = w.start)
    (before : asked.start < w.start) : w.Moved d count start start asked asked := by
  have counted := count_adjust edited fits.short
  have first : (w.adjust d).start = w.start := rfl
  -- the answer adjoins the start of the window, which a batch never moves
  refine ⟨?joins, ?joins', ?whole, ?first, ?last, Iff.rfl, ?behind⟩
  case joins =>
    simp only [Apart]
    omega
  case joins' =>
    simp only [Apart, first, counted]
    omega
  case whole =>
    unfold hull
    split <;> dsimp only <;> omega
  case first =>
    simp only [hull, first]
    split <;> rfl
  case last =>
    simp only [hull, first, counted]
    split <;> dsimp only <;> omega
  case behind =>
    rw [stop_adjust edited fits, stop_eq placed]
    omega

/-- A known bound that stays in range is moved exactly. -/
theorem map_add_of_inRange {bound : Option Int} {d : Int}
    (inRange : ∀ i ∈ bound, Index.InRange (i + d)) :
    bound.map (Index.add · d) = bound.map (· + d) := by
  cases bound with
  | none => rfl
  | some i => exact congrArg some (Index.add_eq_add (inRange i rfl))

/-- It makes no difference whether a window is adjusted before it grows or after. -/
theorem grown_adjust {d : Int} {n m : Nat} {start' : Int} {asked asked' : Span}
    {minimum maximum : Option Int} (placed : Index.Placed w.start w.count)
    (edited : (w.count : Int) + d = n) (fits : Index.Placed w.start n)
    (moved : w.Moved d count start start' asked asked')
    (both : ((w.grown asked start count minimum maximum).count : Int) + d = m)
    (fits' : (m : Int) ≤ Index.greatest) (fetched : ∀ hi ∈ maximum, Index.InRange (hi + d)) :
    ((w.adjust d).grown asked' start' count minimum (maximum.map (· + d))).still
      = ((w.grown asked start count minimum maximum).adjust d).still := by
  have ordered : (w.hull start count).start ≤ (w.hull start count).stop := by
    unfold hull
    split
    · dsimp only
      omega
    · dsimp only
      omega
  have counts : ((w.adjust d).grown asked' start' count minimum (maximum.map (· + d))).count
      = ((w.grown asked start count minimum maximum).adjust d).count := by
    rw [count_adjust both fits']
    simp only [grown] at both ⊢
    rw [moved.first, moved.last]
    omega
  -- a batch moves upper bounds only, so the lower one is learnt alike in both orders
  have lowest : ((w.adjust d).learnBounds asked' (count = 0) minimum (maximum.map (· + d))).1
      = (w.learnBounds asked (count = 0) minimum maximum).1 := by
    simp only [learnBounds, moved.before, adjust]
  have highest : ((w.adjust d).learnBounds asked' (count = 0) minimum (maximum.map (· + d))).2
      = (w.learnBounds asked (count = 0) minimum maximum).2.map (Index.add · d) := by
    have stop : some (w.adjust d).stop = (some w.stop).map (Index.add · d) := by
      rw [stop_adjust edited fits, stop_eq placed, Option.map_some, Index.add_eq_add]
      · rw [← edited, Int.add_assoc]
      · rw [Int.add_assoc, edited]
        exact fits.inRange
    have moves : (w.adjust d).maximum = w.maximum.map (Index.add · d) := rfl
    simp only [learnBounds, moved.behind, ← map_add_of_inRange fetched, moves, stop,
      Option.orElse_eq_orElse, Option.orElse_eq_or, Option.map_or]
    congr 1
    split <;> rfl
  simp only [still, mk.injEq]
  exact ⟨lowest, highest, moved.first, counts, trivial⟩

/-- A range that is taken up is taken up as well once the window is adjusted, and the windows are
the same in the end. -/
theorem absorb_adjust {d : Int} {n : Nat} {start' : Int} {asked asked' : Span}
    {minimum maximum : Option Int} {p : MergePlan} {next : IndexWindow}
    (placed : Index.Placed w.start w.count) (edited : (w.count : Int) + d = n)
    (fits : Index.Placed w.start n) (moved : w.Moved d count start start' asked asked')
    (range : Index.Placed start count) (range' : Index.Placed start' count)
    (both : Index.Placed (w.hull start count).start (n + count))
    (fetched : ∀ hi ∈ maximum, Index.InRange (hi + d))
    (taken : (w.clear asked).absorb asked start count minimum maximum = .ok (p, next)) :
    p = w.cuts start count ∧ ∃ next',
      ((w.adjust d).clear asked').absorb asked' start' count minimum (maximum.map (· + d))
          = .ok ((w.adjust d).cuts start' count, next')
        ∧ next'.still = (next.adjust d).still := by
  obtain ⟨plan, rfl, valid⟩ := grown_of_absorb (w := w.clear asked) placed range moved.joins taken
  have counts : (((w.clear asked).grown asked start count minimum maximum).count : Int) + d
      = (n + count : Nat) := by
    have whole := moved.whole
    show (((w.hull start count).stop - (w.hull start count).start).toNat : Int) + d = _
    omega
  have same : ((w.adjust d).grown asked' start' count minimum (maximum.map (· + d))).still
      = ((w.grown asked start count minimum maximum).adjust d).still :=
    grown_adjust placed edited fits moved counts both.short fetched
  -- whether the grown window is valid is decided by its end, which is the same in both orders
  have grown : ((w.adjust d).grown asked' start' count minimum (maximum.map (· + d))).Valid := by
    have exact : d = (n + count : Nat) - ((w.clear asked).grown asked start count minimum
        maximum).count := by omega
    have adjusted := (valid_adjust_iff valid both.first (n + count)).2 ⟨both.short, both.room⟩
    rw [← exact, ← valid_still_iff] at adjusted
    rw [← valid_still_iff, same]
    exact adjusted
  have counted := count_adjust edited fits.short
  refine ⟨plan, _, absorb_of_grown (w := (w.adjust d).clear asked') ?_ range' moved.joins' ?_, same⟩
  · show Index.Placed w.start (w.adjust d).count
    rwa [counted]
  · rw [← valid_still_iff] at grown ⊢
    exact grown

end IndexWindow

namespace Session

/-- Take in an update. -/
def applyUpdate (s : Session) (u : QueuedUpdate) : Session × Except Rejection Applied :=
  s.apply u.kindName u.payload

/-- An update for an index list is read in a given way. -/
def Reads (u : QueuedUpdate) (update : Update) : Prop :=
  readUpdate u.kindName u.payload = .ok (.index, update)

instance (u : QueuedUpdate) (update : Update) : Decidable (Reads u update) :=
  inferInstanceAs (Decidable (_ = _))

/-- The numbers of a fetched range that is read are in range. -/
theorem Reads.inRange {u : QueuedUpdate} {a : RangeAnswer} (reads : Reads u (.range a)) :
    a.InRange :=
  (readFrom_of_readUpdate reads).inRange a rfl

/-- Two updates are accepted one after the other, and lead to a session. -/
def TakesIn (s : Session) (first second : QueuedUpdate) (last : Session) : Prop :=
  ∃ between applied applied', s.applyUpdate first = (between, .ok applied)
    ∧ between.applyUpdate second = (last, .ok applied')

/-- Two sessions know the same of all lists, apart from what is in flight. -/
structure Matches (s s' : Session) : Prop where
  lists : ∀ listId, (s.find? listId).map (·.still) = (s'.find? listId).map (·.still)
  versions : s.versions = s'.versions
  requests : s.requests = s'.requests

/-- Two updates can be taken in one after the other, or two others, with the same result. -/
def Converge (s : Session) (first second first' second' : QueuedUpdate) : Prop :=
  ∃ last last', s.TakesIn first second last ∧ s.TakesIn first' second' last' ∧ last.Matches last'

variable {s : Session} {p p' q q' : QueuedUpdate} {l : LoadedList} {b : Batch} {a : RangeAnswer}
  {r : Request} {w next next' : IndexWindow} {asked asked' : Span}
  {plan plan' : IndexWindow.MergePlan} {edits : List (Edit Item)} {start : Int}
  {maximum : Option Int}

/-- What a session is once a batch for a list was applied and a request for it was settled. -/
structure Ends (s : Session) (b : Batch) (r : Request) (l' : LoadedList) (last : Session) :
    Prop where
  list : last.find? b.listId = some l'
  others : ∀ other, other ≠ b.listId → last.find? other = s.find? other
  versions : last.versions = acceptedVersions s.versions b.listId (some b.version)
  requests : last.requests = s.requests.settle r.token

/-- Two orders that end alike but for what is in flight lead to matching sessions. -/
theorem Ends.matches {l' l'' : LoadedList} {last last' : Session} (ends : s.Ends b r l' last)
    (ends' : s.Ends b r l'' last') (same : l'.still = l''.still) : last.Matches last' where
  lists other := by
    by_cases own : other = b.listId
    · rw [own, ends.list, ends'.list, Option.map_some, Option.map_some, same]
    · rw [ends.others other own, ends'.others other own]
  versions := ends.versions.trans ends'.versions.symm
  requests := ends.requests.trans ends'.requests.symm

/-- The only request for a list is for that list, and none is left once it is settled. -/
theorem settled_of_only {listId : ListId} (sound : s.requests.Sound)
    (only : s.requests.pendingFor listId = [r]) :
    r.listId = listId ∧ (s.requests.settle r.token).pendingFor listId = [] := by
  have mem : r ∈ s.requests.pendingFor listId := by rw [only]; exact List.mem_cons_self
  obtain ⟨pending, own⟩ := RequestTable.mem_pendingFor.1 mem
  refine ⟨own, ?_⟩
  rw [sound.pendingFor_settle pending, if_pos own.symm, only, List.erase_cons_head]

/-- A batch moves the requests for its list. -/
theorem requests_after_batch (patch : s.edits? p = some (l, b)) (loaded : l.window = .index w) :
    (s.apply p.kindName p.payload).1.requests
      = s.requests.shift b.listId w.stop (applyEdits l.items b.edits).2.delta := by
  obtain ⟨core, -⟩ := applyBatch_spec l (edits?_eq_some_iff.1 patch).2.2.2
  rw [← apply_of_edits? patch] at core
  rw [show (s.apply p.kindName p.payload).1.requests = _ from congrArg Core.requests core,
    editedCore, loaded]
  rfl

/-- After a batch, what is asked for is where the batch has moved the request, and nothing else has
changed for an answer. -/
theorem answered_after_batch (sound : s.core.Sound) (patch : s.edits? p = some (l, b))
    (answered : Answered s q (.range a) l r) (unversioned : a.version = none)
    (own : r.listId = b.listId) (loaded : l.window = .index w)
    (reads : Reads q' (.range { a with start, maximum })) :
    Answered (s.apply p.kindName p.payload).1 q' (.range { a with start, maximum })
      { l with
        items := (applyEdits l.items b.edits).1
        window := .index (w.adjust (applyEdits l.items b.edits).2.delta) }
      (r.shift w.stop (applyEdits l.items b.edits).2.delta) := by
  have sound' := (effects_step sound (.apply p.kindName p.payload)).sound
  have found := congrArg Entry.list?
    (entry_of_edits? (m := .apply p.kindName p.payload) sound rfl patch)
  dsimp only at found
  rw [loaded, editedWindow] at found
  refine ⟨sound'.unfinished found, reads, ?_, ?_, ?_, ?_, ?_⟩
  · rw [Request.listId_shift, own]
    exact found
  · rw [requests_after_batch patch loaded]
    exact RequestTable.mem_pending_shift.2 ⟨r, answered.pending, if_pos own⟩
  · rw [Request.listId_shift]
    exact answered.listId
  · rw [Request.token_shift]
    exact answered.token
  · rw [show (Update.range { a with start, maximum }).version = none from unversioned]
    rfl

/-- The answer that comes after the batch is put to the edited items. -/
theorem answer_after_batch (sound : s.core.Sound) (patch : s.edits? p = some (l, b))
    (answered : Answered s q (.range a) l r) (unversioned : a.version = none)
    (only : s.requests.pendingFor b.listId = [r]) (loaded : l.window = .index w)
    (moved : (r.shift w.stop (applyEdits l.items b.edits).2.delta).span? = some asked')
    (reads : Reads q' (.range { a with start, maximum }))
    (taken : ((w.adjust (applyEdits l.items b.edits).2.delta).clear asked').absorb asked' start
      a.items.length a.minimum maximum = .ok (plan', next')) :
    ∃ last, s.TakesIn p q' last ∧ s.Ends b r { l with
      items := plan'.join (applyEdits l.items b.edits).1 a.items
      window := .index next' } last := by
  obtain ⟨own, gone⟩ := settled_of_only sound.requests only
  obtain ⟨core, answer⟩ := applyBatch_spec l (edits?_eq_some_iff.1 patch).2.2.2
  rw [← apply_of_edits? patch] at core answer
  have sound' := (effects_step sound (.apply p.kindName p.payload)).sound
  have answered' := answered_after_batch sound patch answered unversioned own loaded reads
  -- the only outstanding request has moved with the batch, and is settled by the answer
  obtain ⟨_, _, absorbed, core', answer'⟩ | ⟨_, refused, -⟩ :=
    apply_of_range sound'.requests answered' rfl moved
  · cases taken.symm.trans absorbed
    have list := congrArg Entry.list? (entry_of_settled sound' answered' core')
    rw [Request.listId_shift, own] at list core'
    rw [Request.token_shift] at core'
    refine ⟨_, ⟨_, _, _, Prod.ext rfl answer, Prod.ext rfl answer'⟩, list, ?_, ?_, ?_⟩
    · intro other apart
      exact (alike_of_change sound' apart core').find?.trans
        (alike_of_change sound apart core).find?
    · refine (congrArg Core.versions core').trans ?_
      rw [unversioned]
      exact congrArg Core.versions core
    · refine (congrArg Core.requests core').trans ((congrArg (RequestTable.settle · r.token)
        (requests_after_batch patch loaded)).trans ?_)
      rw [RequestTable.settle_shift, RequestTable.shift_of_none gone]
  · cases taken.symm.trans refused

/-- A batch remains the next one while the versions stay. -/
theorem edits?_of_versions {s' : Session} {l' : LoadedList} (sound : s'.core.Sound)
    (found : s'.find? b.listId = some l') (index : l'.kind = .index)
    (versions : s'.versions = s.versions) (patch : s.edits? p = some (l, b))
    (reads : Reads p' (.batch { b with edits })) :
    s'.edits? p' = some (l', { b with edits }) := by
  obtain ⟨-, -, -, version⟩ := edits?_eq_some_iff.1 patch
  refine edits?_eq_some_iff.2 ⟨sound.unfinished found, found, index ▸ reads, ?_⟩
  rw [checkVersion_eq_ok_iff] at version ⊢
  rwa [versions]

/-- The batch that comes after the answer is the next one all the same. -/
theorem batch_after_answer (sound : s.core.Sound) (patch : s.edits? p = some (l, b))
    (answered : Answered s q (.range a) l r) (unversioned : a.version = none)
    (only : s.requests.pendingFor b.listId = [r]) (loaded : l.window = .index w)
    (range : r.span? = some asked) (reads : Reads p' (.batch { b with edits }))
    (taken : (w.clear asked).absorb asked a.start a.items.length a.minimum a.maximum
      = .ok (plan, next)) :
    ∃ last, s.TakesIn q p' last ∧ s.Ends b r { l with
      items := (applyEdits (plan.join l.items a.items) edits).1
      window := .index (next.adjust (applyEdits (plan.join l.items a.items) edits).2.delta) }
      last := by
  obtain ⟨own, gone⟩ := settled_of_only sound.requests only
  obtain ⟨_, _, absorbed, core, answer⟩ | ⟨_, refused, -⟩ :=
    apply_of_range sound.requests answered loaded range
  · cases taken.symm.trans absorbed
    have sound' := (effects_step sound (.apply q.kindName q.payload)).sound
    have found := congrArg Entry.list? (entry_of_settled sound answered core)
    rw [own] at found core
    -- an answer without a version leaves the version that the batch follows
    have versions : (s.apply q.kindName q.payload).1.versions = s.versions := by
      refine (congrArg Core.versions core).trans ?_
      rw [unversioned]
      rfl
    have patch' := edits?_of_versions sound' found rfl versions patch reads
    obtain ⟨core', answer'⟩ := applyBatch_spec _ (edits?_eq_some_iff.1 patch').2.2.2
    rw [← apply_of_edits? patch'] at core' answer'
    have list := congrArg Entry.list?
      (entry_of_edits? (m := .apply p'.kindName p'.payload) sound' rfl patch')
    refine ⟨_, ⟨_, _, _, Prod.ext rfl answer, Prod.ext rfl answer'⟩, list, ?_, ?_, ?_⟩
    · intro other apart
      exact (alike_of_change sound' apart core').find?.trans
        (alike_of_change sound apart core).find?
    · exact (congrArg Core.versions core').trans
        (congrArg (acceptedVersions · b.listId (some b.version)) versions)
    -- nothing of the list is outstanding any more that the batch could move
    · have requests : (s.apply q.kindName q.payload).1.requests = s.requests.settle r.token :=
        congrArg Core.requests core
      refine (congrArg Core.requests core').trans
        ((congrArg (RequestTable.shift · b.listId next.stop _) requests).trans ?_)
      exact RequestTable.shift_of_none gone _ _
  · cases taken.symm.trans refused

/-- All indices stay in range: those of `n` edited items, of the fetched ones, and of both
together. -/
structure InReach (w : IndexWindow) (a : RangeAnswer) (n : Nat) : Prop where
  edited : Index.Placed w.start n
  fetched : Index.Placed a.start a.items.length
  both : Index.Placed (min a.start w.start) (n + a.items.length)

/-- The order makes no difference if all fetched items are put to the loaded ones, and the edits of
the batch that comes second do to both what those of the batch that comes first do to the loaded
ones. -/
theorem converge_of_moved (sound : s.core.Sound) (patch : s.edits? p = some (l, b))
    (answered : Answered s q (.range a) l r) (unversioned : a.version = none)
    (accepted : ∃ applied, (s.applyUpdate q).2 = .ok applied)
    (only : s.requests.pendingFor b.listId = [r]) (loaded : l.window = .index w) (fits : Fits l w)
    {d : Int} (delta : (applyEdits l.items b.edits).2.delta = d)
    (reach : InReach w a (applyEdits l.items b.edits).1.length)
    (range : r.span? = some asked) (range' : (r.shift w.stop d).span? = some asked')
    (moved : w.Moved d a.items.length a.start start asked asked')
    (placed : Index.Placed start a.items.length)
    (first : (w.hull a.start a.items.length).start = min a.start w.start)
    (reads : Reads q' (.range { a with start, maximum := a.maximum.map (· + d) }))
    (reads' : Reads p' (.batch { b with edits }))
    (items : ((w.adjust d).cuts start a.items.length).join (applyEdits l.items b.edits).1 a.items
      = (applyEdits ((w.cuts a.start a.items.length).join l.items a.items) edits).1) :
    Converge s p q' q p' := by
  have own : Index.Placed w.start w.count := fits.valid.placed fits.start
  have edited : (w.count : Int) + d = (applyEdits l.items b.edits).1.length := by
    rw [← delta, delta_applyEdits, fits.count]
    omega
  have fetched : ∀ hi ∈ a.maximum, Index.InRange (hi + d) := by
    intro hi known
    exact reads.inRange.maximum (hi + d) (Option.mem_map_of_mem (· + d) known)
  -- the answer was accepted in the one order, so its range was absorbed there
  have taken : ∃ plan next, (w.clear asked).absorb asked a.start a.items.length a.minimum a.maximum
      = .ok (plan, next) := by
    obtain ⟨plan, next, absorbed, -⟩ | ⟨_, -, refused⟩ :=
      apply_of_range sound.requests answered loaded range
    · exact ⟨plan, next, absorbed⟩
    · obtain ⟨_, applied⟩ := accepted
      rw [applyUpdate, refused] at applied
      cases applied
  obtain ⟨plan, next, taken⟩ := taken
  obtain ⟨rfl, next', taken', same⟩ := IndexWindow.absorb_adjust own edited reach.edited moved
    reach.fetched placed (first ▸ reach.both) fetched taken
  subst delta
  obtain ⟨last, takes, ends⟩ :=
    answer_after_batch sound patch answered unversioned only loaded range' reads taken'
  obtain ⟨last', takes', ends'⟩ :=
    batch_after_answer sound patch answered unversioned only loaded range reads' taken
  refine ⟨last, last', takes, takes', ends.matches ends' ?_⟩
  have joined := length_join fits.count moved.joins
  have joined' := length_join (IndexWindow.count_adjust edited reach.edited.short) moved.joins'
  rw [moved.first, moved.last, items] at joined'
  -- the batch changes the length alike, on the joined items and on the loaded ones
  have again : (applyEdits ((w.cuts a.start a.items.length).join l.items a.items) edits).2.delta
      = (applyEdits l.items b.edits).2.delta := by
    rw [delta_applyEdits]
    omega
  simp only [LoadedList.still, Window.clearAll, items, again, LoadedList.mk.injEq, true_and,
    Window.index.injEq]
  exact same

/-! ## Requests ask for items -/

/-- Every outstanding request for a range asks for an item at least. -/
theorem wanting_of_reachable (reachable : Reachable s) : ∀ r ∈ s.requests.pending,
    ∀ start count, r.target = .range start count → 0 < count := by
  -- over the moves that led to the session: only planned ranges are ever asked for, none of them
  -- empty
  induction reachable with
  | create created =>
    obtain ⟨policy', -, rfl⟩ := eq_of_create created
    exact fun r pending => absurd pending List.not_mem_nil
  | step reachable m ih =>
    rename_i s
    intro r pending
    have effect := (effects_step reachable.sound m).effect r.listId
    refine effect.requests (P := fun r => ∀ start count, r.target = .range start count → 0 < count)
      ?_ ?_ ?_ ?_ r (RequestTable.mem_pendingFor.2 ⟨pending, rfl⟩)
    · exact fun r pending => ih r (RequestTable.mem_pendingFor.1 pending).1
    · intro r first delta positive start count target
      unfold Request.shift at target
      split at target
      · rename_i s' n asks
        split at target
        · cases target
          exact positive _ _ asks
        · exact positive _ _ target
      · exact positive _ _ target
    · intro l w i r range _ _ _ planned target start count target'
      cases target.symm.trans target'
      have nonempty := IndexWindow.nonempty_of_plan planned
      rw [Span.length]
      omega
    · intro r page d target start count target'
      cases target.symm.trans target'

/-! ## Either way round -/

/-- Items that follow the loaded ones are all put behind them. -/
theorem join_behind {α : Type} {w : IndexWindow} {items fetched : List α} :
    (w.cuts (w.start + w.count) fetched.length).join items fetched = items ++ fetched := by
  have front : min fetched.length (w.start - (w.start + w.count)).toNat = 0 := by omega
  have back : min fetched.length (w.start + w.count - (w.start + w.count)).toNat = 0 := by omega
  simp only [IndexWindow.MergePlan.join, IndexWindow.cuts, front, back, List.take_zero,
    List.drop_zero, List.nil_append]

/-- Items that the loaded ones follow are all put before them. -/
theorem join_before {α : Type} {w : IndexWindow} {items fetched : List α} {start : Int}
    (adjoins : start + fetched.length = w.start) :
    (w.cuts start fetched.length).join items fetched = fetched ++ items := by
  have front : min fetched.length (w.start - start).toNat = fetched.length := by omega
  have back : min fetched.length (w.start + w.count - start).toNat = fetched.length := by omega
  simp only [IndexWindow.MergePlan.join, IndexWindow.cuts, front, back, List.take_length,
    List.drop_length, List.append_nil]

/-- Where a request for a range asks for items once it was moved. -/
theorem span?_shift {start : Int} {count : Nat} (asks : r.target = .range start count)
    (stop d : Int) : (r.shift stop d).span?
      = if stop ≤ start then some ⟨Index.add start d,
          Index.add (Index.add start d) (Index.wrapCount count)⟩
        else some ⟨start, Index.add start (Index.wrapCount count)⟩ := by
  unfold Request.shift
  rw [asks]
  dsimp only
  split
  · rfl
  · rw [Request.span?, asks]

/-- A range that begins behind the loaded items ends where they begin or before only if it has more
items than there are positive indices. -/
theorem stop_le_iff {first start : Int} {count : Nat} (inRange : Index.InRange first)
    (behind : first ≤ start) (positive : 0 < count) (room : start + count ≤ Index.greatest) :
    Index.add start (Index.wrapCount count) ≤ first ↔ Index.greatest < count := by
  have inRange' : Index.InRange start := ⟨Int.le_trans inRange.1 behind, by omega⟩
  by_cases short : (count : Int) ≤ Index.greatest
  · rw [IndexWindow.stop_of_fetched ⟨inRange', short, room⟩]
    omega
  · rw [Index.stop_of_greatest_lt inRange' room (Int.not_le.1 short)]
    simp only [Int.not_le.1 short, iff_true]
    exact inRange.1

/-- A request for the items behind the loaded ones, and the range that answers it, move with their
end. -/
theorem shift_moved {d : Int} {n count fetched : Nat} (own : Index.Placed w.start w.count)
    (edited : (w.count : Int) + d = n) (fits : Index.Placed w.start n)
    (asks : r.target = .range start count) (behind : start = w.stop) (positive : 0 < count)
    (room : start + count ≤ Index.greatest) (room' : start + d + count ≤ Index.greatest) :
    (r.shift w.stop d).span? = some ⟨start + d, Index.add (start + d) (Index.wrapCount count)⟩
      ∧ w.Moved d fetched start (start + d) ⟨start, Index.add start (Index.wrapCount count)⟩
        ⟨start + d, Index.add (start + d) (Index.wrapCount count)⟩ := by
  have stop : start = w.start + w.count := behind.trans (IndexWindow.stop_eq own)
  have moves : start + d = w.start + n := by omega
  constructor
  · rw [span?_shift asks, if_pos (Int.le_of_eq behind.symm), Index.add_eq_add]
    rw [moves]
    exact fits.inRange
  · have before : Index.add (start + d) (Index.wrapCount count) ≤ w.start
        ↔ Index.add start (Index.wrapCount count) ≤ w.start := by
      rw [stop_le_iff own.first (by omega) positive room,
        stop_le_iff own.first (by omega) positive room']
    have moved : w.Moved d fetched (w.start + w.count) (w.start + n) ⟨start, _⟩ ⟨start + d, _⟩ :=
      IndexWindow.moved_behind edited fits behind moves before
    rwa [← stop, ← moves] at moved

/-- A batch that fits the loaded items does to them what it does once others follow them. -/
theorem applyEdits_join_behind {items fetched : List Item} (fitting : Edit.AllFit items edits) :
    (applyEdits ((w.cuts (w.start + w.count) fetched.length).join items fetched) edits).1
      = (applyEdits items edits).1 ++ fetched := by
  obtain ⟨-, same⟩ := Edit.spliceAll_behind fitting [] fetched
  rw [List.length_nil, Edit.map_behind_zero, List.nil_append, List.nil_append] at same
  rw [join_behind, applyEdits_items, applyEdits_items, same]

/-- A batch that fits the loaded items does to them what it does, moved along, once others come
before them. -/
theorem applyEdits_join_before {items fetched : List Item} (fitting : Edit.AllFit items edits)
    (adjoins : start + fetched.length = w.start) :
    (applyEdits ((w.cuts start fetched.length).join items fetched)
        (edits.map (Edit.behind fetched.length))).1
      = fetched ++ (applyEdits items edits).1 := by
  obtain ⟨-, same⟩ := Edit.spliceAll_behind fitting fetched []
  rw [List.append_nil, List.append_nil] at same
  rw [join_before adjoins, applyEdits_items, applyEdits_items, same]

/-- A batch and an answer to the only outstanding request of an index list can be taken in in either
order. -/
theorem batch_and_answer_commute (reachable : Reachable s) (patch : s.edits? p = some (l, b))
    (clean : (applyEdits l.items b.edits).2.warnings = [])
    (answered : Answered s q (.range a) l r) (unversioned : a.version = none)
    (accepted : ∃ applied, (s.applyUpdate q).2 = .ok applied)
    (only : s.outstanding b.listId = [r]) {count : Nat} (asks : r.target = .range start count)
    (loaded : l.window = .index w) (fits : Fits l w) {d : Int}
    (delta : (applyEdits l.items b.edits).2.delta = d)
    (reach : InReach w a (applyEdits l.items b.edits).1.length) :
    (start = w.stop → a.start = w.stop →
      start + count ≤ Index.greatest → start + d + count ≤ Index.greatest → ∀ q',
      Reads q' (.range { a with start := a.start + d, maximum := a.maximum.map (· + d) }) →
      Converge s p q' q p)
    ∧ (start + count = w.start → a.start + a.items.length = w.start → ∀ q' p',
      Reads q' (.range { a with maximum := a.maximum.map (· + d) }) →
      Reads p' (.batch { b with edits := b.edits.map (Edit.behind a.items.length) }) →
      Converge s p q' q p') := by
  have sound := reachable.sound
  have own : Index.Placed w.start w.count := fits.valid.placed fits.start
  have stop := IndexWindow.stop_eq own
  have edited : (w.count : Int) + d = (applyEdits l.items b.edits).1.length := by
    rw [← delta, delta_applyEdits, fits.count]
    omega
  have positive : 0 < count := wanting_of_reachable reachable r answered.pending start count asks
  have only' := RequestTable.outstanding_eq_singleton_iff.1 only
  have fitting : Edit.AllFit l.items b.edits := by
    rw [Edit.applyEdits_warnings] at clean
    exact Edit.fitting_of_warnings clean
  have range : r.span? = some ⟨start, Index.add start (Index.wrapCount count)⟩ := by
    rw [Request.span?, asks]
  constructor
  · intro behind begins room room' q' reads
    -- behind the window the request moves with its end, and so does the answer
    obtain rfl : start = a.start := behind.trans begins.symm
    obtain ⟨range', moved⟩ := shift_moved own edited reach.edited asks begins positive room room'
    have first : a.start = w.start + w.count := begins.trans stop
    have again : Reads p (.batch { b with edits := b.edits }) := by
      have read := (edits?_eq_some_iff.1 patch).2.2.1
      rwa [LoadedList.kind, loaded] at read
    refine converge_of_moved sound patch answered unversioned accepted only' loaded fits delta
      reach range range' moved ?_ ?_ reads again ?_
    · have room := reach.both.room
      exact ⟨reads.inRange.start, reach.fetched.short, by omega⟩
    · exact IndexWindow.start_hull fun _ => by omega
    · have first' : a.start + d = (w.adjust d).start + (w.adjust d).count := by
        rw [IndexWindow.count_adjust edited reach.edited.short, first, Int.add_assoc, edited]
        rfl
      rw [first', first, join_behind, applyEdits_join_behind fitting]
  · intro ends adjoins q' p' reads reads'
    have unmoved : (r.shift w.stop d).span?
        = some ⟨start, Index.add start (Index.wrapCount count)⟩ := by
      rw [span?_shift asks, if_neg (by omega)]
    have moved : w.Moved d a.items.length a.start a.start
        ⟨start, Index.add start (Index.wrapCount count)⟩
        ⟨start, Index.add start (Index.wrapCount count)⟩ :=
      IndexWindow.moved_before own edited reach.edited adjoins (by dsimp only; omega)
    refine converge_of_moved sound patch answered unversioned accepted only' loaded fits delta
      reach range unmoved moved reach.fetched ?_ reads reads' ?_
    · exact IndexWindow.start_hull fun _ => by omega
    · rw [join_before (w := w.adjust d) adjoins, applyEdits_join_before fitting adjoins]

/-- Two items are loaded from the tenth index on, and an index next to them is accessed. -/
def waitingAt (i : Int) (inRange : Index.InRange i) : Session :=
  ({} : Session).run [.register "dynamicIndexList" (.obj [("listId", .str "l"),
      ("listVersion", Json.ofNat 0), ("startIndex", Json.ofInt 10),
      ("items", .arr [.str "c", .str "d"])]),
    .ensureIndex "l" i inRange]

/-- The first of two items goes, and two others come. -/
def turnover (place : Int) : Batch :=
  ⟨"l", 1, [.delete place, .insertMany (place + 1) [.str "x", .str "y"]]⟩

/-- There is nothing behind the loaded items. -/
def noneFrom (start : Int) : RangeAnswer := ⟨"l", "101", none, start, none, none, []⟩

/-- There are two items before the loaded ones, and more behind them. -/
def twoOf (maximum : Int) : RangeAnswer :=
  ⟨"l", "101", none, 8, none, some maximum, [.str "a", .str "b"]⟩

/-- An update for an index list. -/
def forIndexList (payload : Json) : QueuedUpdate := ⟨"dynamicIndexList", payload⟩

/-- The end of the list is found where the batch has moved it, and items come in before those that
it edits. -/
theorem batch_and_answer_commute_turnover :
    Converge (waitingAt 12 (by decide)) (forIndexList (turnover 0).toJson)
      (forIndexList (noneFrom 13).toJson) (forIndexList (noneFrom 12).toJson)
      (forIndexList (turnover 0).toJson)
    ∧ Converge (waitingAt 9 (by decide)) (forIndexList (turnover 0).toJson)
      (forIndexList (twoOf 51).toJson) (forIndexList (twoOf 50).toJson)
      (forIndexList (turnover 2).toJson) := by
  constructor
  · have patch : (waitingAt 12 (by decide)).edits? (forIndexList (turnover 0).toJson)
        = some (⟨"l", [.str "c", .str "d"], .index ⟨none, none, 10, 2, [⟨12, 22⟩]⟩⟩,
          turnover 0) := by decide
    have answered : Answered (waitingAt 12 (by decide)) (forIndexList (noneFrom 12).toJson)
        (.range (noneFrom 12)) ⟨"l", [.str "c", .str "d"],
          .index ⟨none, none, 10, 2, [⟨12, 22⟩]⟩⟩ ⟨"101", "l", .range 12 10⟩ :=
      ⟨by decide, by decide, by decide, by decide, rfl, rfl, rfl⟩
    have accepted : ((waitingAt 12 (by decide)).applyUpdate (forIndexList (noneFrom 12).toJson)).2
        = .ok ⟨"l", .changes [], []⟩ := by decide
    have delta : (applyEdits [.str "c", .str "d"] (turnover 0).edits).2.delta = 1 := by decide
    have reach : InReach ⟨none, none, 10, 2, [⟨12, 22⟩]⟩ (noneFrom 12) 3 :=
      ⟨⟨by decide, by decide, by decide⟩, ⟨by decide, by decide, by decide⟩,
        ⟨by decide, by decide, by decide⟩⟩
    exact (batch_and_answer_commute (reachable_default.run _) patch (by decide) answered rfl
      ⟨_, accepted⟩ (RequestTable.outstanding_eq_singleton_iff.2 (by decide)) rfl rfl
      ⟨by decide, rfl, by decide⟩ delta reach).1 (by decide) (by decide) (by decide) (by decide)
      _ (by decide)
  · have patch : (waitingAt 9 (by decide)).edits? (forIndexList (turnover 0).toJson)
        = some (⟨"l", [.str "c", .str "d"], .index ⟨none, none, 10, 2, [⟨0, 10⟩]⟩⟩,
          turnover 0) := by decide
    have answered : Answered (waitingAt 9 (by decide)) (forIndexList (twoOf 50).toJson)
        (.range (twoOf 50)) ⟨"l", [.str "c", .str "d"],
          .index ⟨none, none, 10, 2, [⟨0, 10⟩]⟩⟩ ⟨"101", "l", .range 0 10⟩ :=
      ⟨by decide, by decide, by decide, by decide, rfl, rfl, rfl⟩
    have accepted : ((waitingAt 9 (by decide)).applyUpdate (forIndexList (twoOf 50).toJson)).2
        = .ok ⟨"l", .changes [.insert 0, .insert 1], []⟩ := by decide
    have delta : (applyEdits [.str "c", .str "d"] (turnover 0).edits).2.delta = 1 := by decide
    have reach : InReach ⟨none, none, 10, 2, [⟨0, 10⟩]⟩ (twoOf 50) 3 :=
      ⟨⟨by decide, by decide, by decide⟩, ⟨by decide, by decide, by decide⟩,
        ⟨by decide, by decide, by decide⟩⟩
    exact (batch_and_answer_commute (reachable_default.run _) patch (by decide) answered rfl
      ⟨_, accepted⟩ (RequestTable.outstanding_eq_singleton_iff.2 (by decide)) rfl rfl
      ⟨by decide, rfl, by decide⟩ delta reach).2 (by decide) (by decide) _ _ (by decide)
      (by decide)

end Session

end ListSync
