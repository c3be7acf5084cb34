import ListSync.Fetch.Request
import Mathlib.Data.List.Nodup

/-!
# Outstanding requests have tokens of their own

Tokens are the decimal texts of a counter that only grows, so no two requests of a table share one
and a new token is outstanding for nothing. `RequestTable.Sound` says so of a table. In a sound
table a token names one request (`find?_eq_some_iff`), to settle it takes out that request alone
(`pending_settle`), and to add a new one takes out nothing (`pending_add_issue`).
-/

namespace ListSync

/-- The token with a number. -/
def tokenText (n : Nat) : CorrelationToken := String.ofList (Decimal.render n)

/-- Different numbers give different tokens. -/
theorem tokenText_inj {m n : Nat} (h : tokenText m = tokenText n) : m = n := by
  have digits : Decimal.render m = Decimal.render n := String.ofList_injective h
  have read := Decimal.digits?_render m
  rw [digits, Decimal.digits?_render n] at read
  exact (Option.some.inj read).symm

namespace Request

/-- A request keeps its token when the range that it asks for moves. -/
@[simp]
theorem token_shift (r : Request) (start delta : Int) : (r.shift start delta).token = r.token := by
  unfold shift
  split
  · split <;> rfl
  · rfl

/-- A request stays with its list when the range that it asks for moves. -/
@[simp]
theorem listId_shift (r : Request) (start delta : Int) :
    (r.shift start delta).listId = r.listId := by
  unfold shift
  split
  · split <;> rfl
  · rfl

/-- What is sent for a request carries its token. -/
@[simp]
theorem token_toFetch (r : Request) : r.toFetch.token = r.token := by
  unfold toFetch
  split <;> rfl

/-- What is sent for a request names its list. -/
@[simp]
theorem listId_toFetch (r : Request) : r.toFetch.listId = r.listId := by
  unfold toFetch
  split <;> rfl

/-- What is sent for some requests carries their tokens, in order. -/
theorem map_token_toFetch (rs : List Request) :
    (rs.map toFetch).map (·.token) = rs.map (·.token) := by
  rw [List.map_map]
  exact List.map_congr_left fun r _ => r.token_toFetch

end Request

namespace RequestTable

/-- Each token was handed out by the counter, and none is outstanding twice. -/
structure Sound (t : RequestTable) : Prop where
  issued : ∀ r ∈ t.pending, ∃ n, n ≤ t.counter ∧ r.token = tokenText n
  distinct : (t.pending.map (·.token)).Nodup

variable {t : RequestTable}

/-- The tokens of an empty table are in order. -/
theorem sound_empty : ({} : RequestTable).Sound where
  issued r h := by cases h
  distinct := List.nodup_nil

/-! ## Looking up and settling -/

/-- Requests with the same token are the same. -/
theorem Sound.eq_of_token (sound : t.Sound) {r r' : Request} (h : r ∈ t.pending)
    (h' : r' ∈ t.pending) (same : r.token = r'.token) : r = r' :=
  List.inj_on_of_nodup_map sound.distinct h h' same

/-- A token finds the one outstanding request that carries it. -/
theorem Sound.find?_eq_some_iff (sound : t.Sound) {token : CorrelationToken} {r : Request} :
    t.find? token = some r ↔ r ∈ t.pending ∧ r.token = token := by
  constructor
  · intro h
    exact ⟨List.mem_of_find?_eq_some h, by simpa using List.find?_some h⟩
  · rintro ⟨mem, rfl⟩
    cases h : t.find? r.token with
    | none => simpa using List.find?_eq_none.1 h r mem
    | some r' =>
      have mem' := List.mem_of_find?_eq_some h
      have same : r'.token = r.token := by simpa using List.find?_some h
      rw [sound.eq_of_token mem' mem same]

/-- To settle a token takes out the one request it names. -/
theorem Sound.pending_settle (sound : t.Sound) {r : Request} (h : r ∈ t.pending) :
    (t.settle r.token).pending = t.pending.erase r := by
  have nodup : t.pending.Nodup := List.Nodup.of_map _ sound.distinct
  rw [settle, nodup.erase_eq_filter]
  -- the token tells the request from all others
  refine List.filter_congr ?_
  intro r' h'
  by_cases e : r' = r
  · simp [e]
  · have apart : r'.token ≠ r.token := fun same => e (sound.eq_of_token h' h same)
    simp [e, apart]

/-- Tokens stay in order when one of them is settled. -/
theorem Sound.settle (sound : t.Sound) (token : CorrelationToken) : (t.settle token).Sound where
  issued r h := sound.issued r (List.mem_of_mem_filter h)
  distinct := sound.distinct.sublist (List.filter_sublist.map _)

/-- Tokens stay in order when a list is abandoned. -/
theorem Sound.abandon (sound : t.Sound) (listId : ListId) : (t.abandon listId).Sound where
  issued r h := sound.issued r (List.mem_of_mem_filter h)
  distinct := sound.distinct.sublist (List.filter_sublist.map _)

/-- Tokens are in order when all requests are abandoned. -/
theorem Sound.abandonAll (t : RequestTable) : t.abandonAll.Sound where
  issued r h := by cases h
  distinct := List.nodup_nil

/-! ## Issuing -/

/-- The token that is issued writes the number after the last. -/
theorem issue_token (t : RequestTable) : t.issue.2 = tokenText (t.counter + 1) := rfl

/-- A token that is handed out now is outstanding for nothing. -/
theorem Sound.fresh (sound : t.Sound) {r : Request} (h : r ∈ t.pending) : r.token ≠ t.issue.2 := by
  obtain ⟨n, le, token⟩ := sound.issued r h
  rw [token, issue_token]
  intro e
  have := tokenText_inj e
  omega

/-- A request under a new token comes to all others. -/
theorem Sound.pending_add_issue (sound : t.Sound) {r : Request} (h : r.token = t.issue.2) :
    (t.issue.1.add r).pending = t.pending ++ [r] := by
  show t.pending.filter _ ++ [r] = _
  rw [List.filter_eq_self.2 fun r' h' => by simpa [h] using sound.fresh h']

/-- Tokens stay in order when a request is added under the token issued for it. -/
theorem Sound.add_issue (sound : t.Sound) {r : Request} (h : r.token = t.issue.2) :
    (t.issue.1.add r).Sound := by
  constructor
  · intro r' h'
    rw [sound.pending_add_issue h] at h'
    rcases List.mem_append.1 h' with old | new
    · obtain ⟨n, le, token⟩ := sound.issued r' old
      exact ⟨n, Nat.le_succ_of_le le, token⟩
    · rw [List.mem_singleton.1 new]
      exact ⟨t.counter + 1, Nat.le_refl _, h⟩
  · rw [sound.pending_add_issue h, List.map_append, List.nodup_append]
    refine ⟨sound.distinct, by simp, ?_⟩
    intro token old other new
    obtain ⟨r', h', rfl⟩ := List.mem_map.1 old
    rw [List.map_singleton, List.mem_singleton] at new
    rw [new, h]
    exact sound.fresh h'

/-! ## Moving -/

/-- The requests after a move of ranges are those before, each moved if it is of the list. -/
theorem mem_pending_shift {listId : ListId} {start delta : Int} {r : Request} :
    r ∈ (t.shift listId start delta).pending ↔
      ∃ r' ∈ t.pending, (if r'.listId = listId then r'.shift start delta else r') = r :=
  List.mem_map

/-- A move of ranges keeps the tokens and their order. -/
theorem tokens_shift (t : RequestTable) (listId : ListId) (start delta : Int) :
    (t.shift listId start delta).pending.map (·.token) = t.pending.map (·.token) := by
  simp only [shift, List.map_map]
  refine List.map_congr_left ?_
  intro r _
  simp only [Function.comp]
  split
  · exact r.token_shift start delta
  · rfl

/-- Tokens stay in order when the ranges of a list move. -/
theorem Sound.shift (sound : t.Sound) (listId : ListId) (start delta : Int) :
    (t.shift listId start delta).Sound := by
  constructor
  · intro r h
    obtain ⟨r', h', rfl⟩ := mem_pending_shift.1 h
    obtain ⟨n, le, token⟩ := sound.issued r' h'
    refine ⟨n, le, ?_⟩
    rw [← token]
    split
    · exact r'.token_shift start delta
    · rfl
  · rw [tokens_shift]
    exact sound.distinct

/-! ## The requests for one list -/

/-- The outstanding requests for a list, in the order in which they were issued. -/
def pendingFor (t : RequestTable) (listId : ListId) : List Request :=
  t.pending.filter (·.listId = listId)

/-- What is outstanding for a list are its requests among all. -/
theorem mem_pendingFor {listId : ListId} {r : Request} :
    r ∈ t.pendingFor listId ↔ r ∈ t.pending ∧ r.listId = listId := by
  simp [pendingFor]

/-- To list the requests by number only changes their order. -/
theorem outstanding_perm (t : RequestTable) (listId : ListId) :
    (t.outstanding listId).Perm (t.pendingFor listId) := List.mergeSort_perm ..

/-- The order does not matter where only one request is outstanding. -/
theorem outstanding_eq_singleton_iff {listId : ListId} {r : Request} :
    t.outstanding listId = [r] ↔ t.pendingFor listId = [r] := by
  have perm := t.outstanding_perm listId
  constructor
  · intro only
    rw [only] at perm
    exact List.perm_singleton.1 perm.symm
  · intro only
    rw [only] at perm
    exact List.perm_singleton.1 perm

/-- To settle a request takes it out of the requests for its list, and leaves those for others. -/
theorem Sound.pendingFor_settle (sound : t.Sound) {r : Request} (h : r ∈ t.pending)
    (listId : ListId) :
    (t.settle r.token).pendingFor listId =
      if listId = r.listId then (t.pendingFor listId).erase r else t.pendingFor listId := by
  have nodup : t.pending.Nodup := List.Nodup.of_map _ sound.distinct
  rw [pendingFor, sound.pending_settle h, nodup.erase_eq_filter, List.filter_filter]
  by_cases e : listId = r.listId
  · rw [if_pos e, pendingFor, (nodup.filter _).erase_eq_filter, List.filter_filter]
    exact List.filter_congr fun r' _ => Bool.and_comm ..
  · rw [if_neg e, pendingFor]
    refine List.filter_congr ?_
    intro r' _
    by_cases e' : r'.listId = listId
    · have apart : r' ≠ r := by
        rintro rfl
        exact e e'.symm
      simp [apart]
    · simp [e']

/-- Nothing is outstanding for an abandoned list, and all is as before for the others. -/
theorem pendingFor_abandon (t : RequestTable) (listId other : ListId) :
    (t.abandon listId).pendingFor other =
      if other = listId then [] else t.pendingFor other := by
  rw [pendingFor, abandon, List.filter_filter]
  by_cases e : other = listId
  · rw [if_pos e, List.filter_eq_nil_iff]
    rintro r -
    simp [e]
  · rw [if_neg e, pendingFor]
    refine List.filter_congr ?_
    intro r _
    by_cases e' : r.listId = other
    · simp [e', e]
    · simp [e']

/-- A request that is added is outstanding for its own list only, behind all others. -/
theorem Sound.pendingFor_add_issue (sound : t.Sound) {r : Request} (h : r.token = t.issue.2)
    (listId : ListId) :
    (t.issue.1.add r).pendingFor listId =
      if listId = r.listId then t.pendingFor listId ++ [r] else t.pendingFor listId := by
  rw [pendingFor, sound.pending_add_issue h, List.filter_append]
  by_cases e : listId = r.listId
  · simp [e, pendingFor]
  · have e' : ¬ r.listId = listId := fun h => e h.symm
    simp [e, e', pendingFor]

/-- Only the ranges asked for of the shifted list move. -/
theorem pendingFor_shift (t : RequestTable) (listId other : ListId) (start delta : Int) :
    (t.shift listId start delta).pendingFor other =
      if other = listId then (t.pendingFor other).map (·.shift start delta)
      else t.pendingFor other := by
  rw [pendingFor, shift, List.filter_map]
  by_cases e : other = listId
  · subst e
    rw [if_pos rfl, pendingFor]
    -- a request stays with its list when it is moved
    have keeps : t.pending.filter ((fun r => decide (r.listId = other)) ∘ fun r =>
        if r.listId = other then r.shift start delta else r)
        = t.pending.filter (·.listId = other) := by
      refine List.filter_congr ?_
      intro r _
      by_cases h : r.listId = other <;> simp [h]
    rw [keeps]
    refine List.map_congr_left ?_
    intro r h
    rw [if_pos (by simpa using List.of_mem_filter h)]
  · rw [if_neg e, pendingFor]
    have keeps : t.pending.filter ((fun r => decide (r.listId = other)) ∘ fun r =>
        if r.listId = listId then r.shift start delta else r)
        = t.pending.filter (·.listId = other) := by
      refine List.filter_congr ?_
      intro r _
      by_cases h : r.listId = listId <;> simp [h]
    rw [keeps]
    refine (List.map_congr_left ?_).trans (List.map_id _)
    intro r h
    have own : r.listId = other := by simpa using List.of_mem_filter h
    rw [if_neg fun h => e (own.symm.trans h), id]

/-- A move changes nothing where no request for the list is outstanding. -/
theorem shift_of_none {listId : ListId} (none : t.pendingFor listId = []) (start delta : Int) :
    t.shift listId start delta = t := by
  have others : ∀ r ∈ t.pending,
      (if r.listId = listId then r.shift start delta else r) = id r := by
    intro r pending
    refine if_neg fun own => ?_
    have mem : r ∈ t.pendingFor listId := mem_pendingFor.2 ⟨pending, own⟩
    rw [none] at mem
    cases mem
  rw [shift, List.map_congr_left others, List.map_id]

/-- A request is settled before it moves or after. -/
theorem settle_shift (t : RequestTable) (listId : ListId) (start delta : Int)
    (token : CorrelationToken) :
    (t.shift listId start delta).settle token = (t.settle token).shift listId start delta := by
  have kept : ((fun r : Request => decide (r.token ≠ token)) ∘ fun r =>
      if r.listId = listId then r.shift start delta else r)
      = fun r => decide (r.token ≠ token) := by
    funext r
    by_cases own : r.listId = listId <;> simp [own]
  rw [settle, shift, List.filter_map, kept]
  rfl

end RequestTable

end ListSync
