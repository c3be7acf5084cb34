import ListSync.Listing
import ListSync.Update

/-!
# What a payload that was read is known to hold

Fields come out of a payload as they stand there, and numbers are within 64 bits: an update names
the list that the member `listId` names, an answer repeats the member `correlationToken`, and
indices are in range (`Update.readFrom_of_parse`, `Listing.inRange_of_parse`).
-/

namespace ListSync

/-! ## Checks one after the other -/

section Checks

variable {ε α β : Type} {x : Except ε α} {f : α → Except ε β}

/-- A computation in steps gives a value if each of its steps does. -/
theorem bind_eq_ok_iff {b : β} : x >>= f = .ok b ↔ ∃ a, x = .ok a ∧ f a = .ok b := by
  cases x <;> simp [bind, Except.bind]

/-- A computation in steps fails where its first step fails or, after that, the rest does. -/
theorem bind_eq_error_iff {e : ε} :
    x >>= f = .error e ↔ x = .error e ∨ ∃ a, x = .ok a ∧ f a = .error e := by
  cases x <;> simp [bind, Except.bind]

end Checks

/-! ## Scalars -/

namespace Json

/-- An index that was read fits the machine. -/
theorem inRange_of_index? {j : Json} {i : Int} (h : index? j = some i) : Index.InRange i := by
  unfold index? at h
  split at h
  · split at h
    · cases h
      assumption
    · cases h
  · cases h

/-- A count that was read fits the machine. -/
theorem le_of_count? {j : Json} {n : Nat} (h : count? j = some n) : n ≤ maxCount := by
  unfold count? at h
  split at h
  · split at h
    · cases h
      omega
    · cases h
  · cases h

/-- An index that fits the machine is read as it is written. -/
@[simp]
theorem index?_ofInt {i : Int} (h : Index.InRange i) : index? (ofInt i) = some i := if_pos h

/-- A count that fits the machine is read as it is written. -/
@[simp]
theorem count?_ofNat {n : Nat} (h : n ≤ maxCount) : count? (ofNat n) = some n := by
  simp [ofNat, count?, h]

/-- What is read as a text is that text. -/
theorem eq_str_of_string? {j : Json} {s : String} (h : string? j = some s) : j = .str s := by
  unfold string? at h
  split at h
  · cases h
    rfl
  · cases h

end Json

/-! ## Fields -/

namespace Record

variable {α : Type}

/-- A required member that was read is there, and its value was read. -/
theorem lookup_of_required {r : Record} {name : String} {decode : Json → Option α} {a : α}
    (h : r.required name decode = some a) : ∃ v, r.lookup name = some v ∧ decode v = some a :=
  Option.bind_eq_some_iff.1 h

/-- An optional member with a value has one that was read. -/
theorem decode_of_optional {r : Record} {name : String} {decode : Json → Option α} {a : α}
    (h : r.optional name decode = some (some a)) : ∃ v, decode v = some a := by
  unfold optional at h
  split at h
  · cases h
  · cases h
  · rename_i v _ _
    obtain ⟨a', ha, e⟩ := Option.map_eq_some_iff.1 h
    cases e
    exact ⟨v, ha⟩

end Record

/-- A lookup takes the first member of the name. -/
theorem Json.lookup_cons (name other : String) (value : Json) (members : List (String × Json)) :
    ((name, value) :: members).lookup other
      = if other = name then some value else members.lookup other := by
  rw [List.lookup_cons]
  by_cases same : other = name
  · rw [if_pos same, same, beq_self_eq_true]
  · rw [if_neg same, beq_false_of_ne same]

/-- A lookup does not see members of other names go. -/
theorem lookup_filter_of_keep {members : List (String × Json)} {keep : String × Json → Bool}
    {name : String} (h : ∀ v, keep (name, v) = true) :
    (members.filter keep).lookup name = members.lookup name := by
  induction members with
  | nil => rfl
  | cons m ms ih =>
    obtain ⟨n, v⟩ := m
    rw [Json.lookup_cons, List.filter_cons]
    by_cases same : name = n
    · subst same
      rw [h v, if_pos rfl, if_pos rfl, Json.lookup_cons, if_pos rfl]
    · rw [if_neg same]
      split
      · rw [Json.lookup_cons, if_neg same, ih]
      · exact ih

/-- A field that a record gives stands in the object it was read from. -/
theorem lookup_record? {fields : List Field} {members : List (String × Json)} {r : Record}
    (h : Json.record? fields (.obj members) = some r) {name : String}
    (known : fields.any (·.name = name) = true) : r.lookup name = members.lookup name := by
  simp only [Json.record?] at h
  split at h
  · cases h
    exact lookup_filter_of_keep fun v => known
  · cases h

/-- A text field that a record gives is that member of the object. -/
theorem member?_of_required {fields : List Field} {members : List (String × Json)} {r : Record}
    (h : Json.record? fields (.obj members) = some r) {name text : String}
    (known : fields.any (·.name = name) = true)
    (given : r.required name Json.string? = some text) :
    Json.member? name (.obj members) = some (.str text) := by
  obtain ⟨v, look, str⟩ := Record.lookup_of_required given
  rw [lookup_record? h known] at look
  rw [Json.member?, look, Json.eq_str_of_string? str]

/-! ## Answers and batches -/

/-- The indices of an answer are in range. -/
structure RangeAnswer.InRange (a : RangeAnswer) : Prop where
  start : Index.InRange a.start
  minimum : ∀ lo ∈ a.minimum, Index.InRange lo
  maximum : ∀ hi ∈ a.maximum, Index.InRange hi

/-- An optional bound that was read fits the machine. -/
theorem inRange_of_optional {r : Record} {name : String} {bound : Option Int}
    (h : r.optional name Json.index? = some bound) : ∀ i ∈ bound, Index.InRange i := by
  rintro i rfl
  obtain ⟨v, hv⟩ := Record.decode_of_optional h
  exact Json.inRange_of_index? hv

/-- A range that was read as an answer fits the machine, and names its list and its token. -/
theorem RangeAnswer.ofJson?_spec {members : List (String × Json)} {a : RangeAnswer}
    (h : RangeAnswer.ofJson? (.obj members) = some a) :
    a.InRange ∧ Json.member? "listId" (.obj members) = some (.str a.listId)
      ∧ Json.member? "correlationToken" (.obj members) = some (.str a.token) := by
  simp only [RangeAnswer.ofJson?, Option.bind_eq_bind, Option.bind_eq_some_iff, Option.pure_def,
    Option.some.injEq] at h
  obtain ⟨r, hr, listId, hl, token, ht, version, -, start, hs, lo, hlo, hi, hhi, items, -, rfl⟩ := h
  obtain ⟨v, -, hv⟩ := Record.lookup_of_required hs
  exact ⟨⟨Json.inRange_of_index? hv, inRange_of_optional hlo, inRange_of_optional hhi⟩,
    member?_of_required hr (by decide) hl, member?_of_required hr (by decide) ht⟩

/-- A page that was read as an answer names its list and its token. -/
theorem PageAnswer.ofJson?_spec {members : List (String × Json)} {a : PageAnswer}
    (h : PageAnswer.ofJson? (.obj members) = some a) :
    Json.member? "listId" (.obj members) = some (.str a.listId)
      ∧ Json.member? "correlationToken" (.obj members) = some (.str a.token) := by
  simp only [PageAnswer.ofJson?, Option.bind_eq_bind, Option.bind_eq_some_iff, Option.pure_def,
    Option.some.injEq] at h
  obtain ⟨r, hr, listId, hl, token, ht, version, -, page, -, next, -, items, -, rfl⟩ := h
  exact ⟨member?_of_required hr (by decide) hl, member?_of_required hr (by decide) ht⟩

/-- A batch that was read has a version that fits the machine, and names its list. -/
theorem Batch.ofJson?_spec {members : List (String × Json)} {b : Batch}
    (h : Batch.ofJson? (.obj members) = some b) :
    b.version ≤ maxCount ∧ Json.member? "listId" (.obj members) = some (.str b.listId) := by
  simp only [Batch.ofJson?, Option.bind_eq_bind, Option.bind_eq_some_iff, Option.pure_def,
    Option.some.injEq] at h
  obtain ⟨r, hr, listId, hl, version, hv, edits, -, rfl⟩ := h
  obtain ⟨v, -, hv⟩ := Record.lookup_of_required hv
  exact ⟨Json.le_of_count? hv, member?_of_required hr (by decide) hl⟩

/-! ## Updates -/

/-- What was accepted as fitting was there. -/
theorem eq_some_of_fitting {α : Type} {o : Option α} {a : α} (h : fitting o = .ok a) :
    o = some a := by
  cases o with
  | none => cases h
  | some a' =>
    cases h
    rfl

namespace Update

/-- The correlation token that an update carries. -/
def token? : Update → Option String
  | batch _ => none
  | range a => some a.token
  | page a => some a.token

/-- What is known of an update that was read for a kind of list. -/
structure ReadFrom (kind : Kind) (payload : Json) (u : Update) : Prop where
  kind_eq : ∀ k ∈ u.kind?, k = kind
  listId_eq : payload.member? "listId" = some (.str u.listId)
  token_eq : ∀ token ∈ u.token?, payload.member? "correlationToken" = some (.str token)
  version_le : ∀ b, u = .batch b → b.version ≤ maxCount
  inRange : ∀ a, u = .range a → a.InRange

/-- An update that is read fits the kind it was read for, and carries what the payload names. -/
theorem readFrom_of_parse {kind : Kind} {payload : Json} {u : Update}
    (h : parse kind payload = .ok u) : ReadFrom kind payload u := by
  unfold parse at h
  split at h
  · rename_i members
    split at h
    · obtain ⟨b, hb, ⟨⟩⟩ := bind_eq_ok_iff.1 h
      obtain ⟨version, listId⟩ := Batch.ofJson?_spec (eq_some_of_fitting hb)
      exact ⟨by simp [kind?], listId, by simp [token?], by rintro _ ⟨⟩; exact version,
        by rintro _ ⟨⟩⟩
    · split at h
      · cases kind with
        | index =>
          obtain ⟨a, ha, ⟨⟩⟩ := bind_eq_ok_iff.1 h
          obtain ⟨inRange, listId, token⟩ := RangeAnswer.ofJson?_spec (eq_some_of_fitting ha)
          exact ⟨by simp [kind?], listId, by rintro _ ⟨⟩; exact token, by rintro _ ⟨⟩,
            by rintro _ ⟨⟩; exact inRange⟩
        | token =>
          obtain ⟨a, ha, ⟨⟩⟩ := bind_eq_ok_iff.1 h
          obtain ⟨listId, token⟩ := PageAnswer.ofJson?_spec (eq_some_of_fitting ha)
          exact ⟨by simp [kind?], listId, by rintro _ ⟨⟩; exact token, by rintro _ ⟨⟩,
            by rintro _ ⟨⟩⟩
      · cases h
  · cases h

end Update

/-! ## Listings -/

/-- The indices of a listing are in range. -/
def Listing.InRange : Listing → Prop
  | .index p => Index.InRange p.start ∧ (∀ lo ∈ p.minimum, Index.InRange lo)
      ∧ ∀ hi ∈ p.maximum, Index.InRange hi
  | .token _ => True

/-- The first payload of an index list fits the machine if it was read. -/
theorem IndexListing.inRange_of_ofJson? {j : Json} {p : IndexListing}
    (h : IndexListing.ofJson? j = some p) : (Listing.index p).InRange := by
  simp only [IndexListing.ofJson?, Option.bind_eq_bind, Option.bind_eq_some_iff, Option.pure_def,
    Option.some.injEq] at h
  obtain ⟨r, -, listId, -, version, -, start, hs, lo, hlo, hi, hhi, items, -, rfl⟩ := h
  obtain ⟨v, -, hv⟩ := Record.lookup_of_required hs
  exact ⟨Json.inRange_of_index? hv, inRange_of_optional hlo, inRange_of_optional hhi⟩

/-- The indices of a listing that is read are in range. -/
theorem Listing.inRange_of_parse {kind : Kind} {j : Json} {p : Listing}
    (h : Listing.parse kind j = .ok p) : p.InRange := by
  unfold parse at h
  obtain ⟨-, -, h⟩ := bind_eq_ok_iff.1 h
  cases kind with
  | index =>
    obtain ⟨p', hp, ⟨⟩⟩ := bind_eq_ok_iff.1 h
    exact IndexListing.inRange_of_ofJson? (eq_some_of_fitting hp)
  | token =>
    obtain ⟨p', hp, ⟨⟩⟩ := bind_eq_ok_iff.1 h
    trivial

end ListSync
