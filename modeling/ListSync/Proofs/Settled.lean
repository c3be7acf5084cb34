import ListSync.Proofs.RoundTrip
import Mathlib.Data.String.Basic

/-!
# What is read from plain values

A payload is handed on as a plain value, with the members of each object sorted by name. Sorting
them does not change what is read: a decoder that finds something in a value finds the same in its
plain value, with plain items (`Json.Settles`, `Update.parse_settle`, `Listing.parse_settle`). The
members keep their values (`lookup_settleMembers`), and the fields of a record are sorted as if they
were alone (`filter_settleMembers`).
-/

namespace ListSync

namespace Json

/-! ## Members sorted by name -/

/-- Members in the order of their names, of which none occurs twice. -/
def Sorted (members : List (String × Json)) : Prop := members.Pairwise (·.1 < ·.1)

section

variable {members : List (String × Json)} {name : String} {value : Json}

/-- A member of an object to which one was added is this one or was there before. -/
theorem mem_addEarlier {m : String × Json} (h : m ∈ addEarlier name value members) :
    m = (name, value) ∨ m ∈ members := by
  induction members with
  | nil => exact .inl (List.mem_singleton.1 h)
  | cons first rest ih =>
    rw [addEarlier] at h
    split at h
    · exact .inr h
    · split at h
      · exact List.mem_cons.1 h
      · rcases List.mem_cons.1 h with rfl | later
        · exact .inr List.mem_cons_self
        · exact (ih later).imp_right (List.mem_cons_of_mem first)

/-- A member that is added to sorted members takes its place in the order. -/
theorem sorted_addEarlier (sorted : Sorted members) : Sorted (addEarlier name value members) := by
  induction members with
  | nil => exact List.pairwise_singleton ..
  | cons first rest ih =>
    obtain ⟨ahead, later⟩ := List.pairwise_cons.1 sorted
    rw [addEarlier]
    split
    · exact sorted
    · rename_i other
      split
      · rename_i before
        refine List.pairwise_cons.2 ⟨?_, sorted⟩
        intro m h
        rcases List.mem_cons.1 h with rfl | h
        · exact before
        · exact lt_trans before (ahead m h)
      · rename_i behind
        refine List.pairwise_cons.2 ⟨?_, ih later⟩
        intro m h
        rcases mem_addEarlier h with rfl | h
        · exact lt_of_le_of_ne (not_lt.1 behind) (Ne.symm other)
        · exact ahead m h

/-- A member whose name comes before all others is put in front. -/
theorem addEarlier_of_lt (first : ∀ m ∈ members, name < m.1) :
    addEarlier name value members = (name, value) :: members := by
  cases members with
  | nil => rfl
  | cons m rest =>
    have before := first m List.mem_cons_self
    rw [addEarlier, if_neg before.ne, if_pos before]

/-- A member comes to stand in the same place whether some others are there or not. -/
theorem filter_addEarlier (sorted : Sorted members) (keep : String → Bool) :
    (addEarlier name value members).filter (fun m => keep m.1)
      = if keep name then addEarlier name value (members.filter fun m => keep m.1)
        else members.filter fun m => keep m.1 := by
  induction members with
  | nil =>
    simp only [addEarlier, List.filter_cons, List.filter_nil]
  | cons first rest ih =>
    obtain ⟨ahead, later⟩ := List.pairwise_cons.1 sorted
    rw [addEarlier]
    split
    · rename_i same
      subst same
      cases keeps : keep first.1 <;> simp [keeps, addEarlier]
    · rename_i other
      split
      · rename_i before
        -- all that is left of the others stands behind the new member
        have front : addEarlier name value ((first :: rest).filter fun m => keep m.1)
            = (name, value) :: (first :: rest).filter fun m => keep m.1 := by
          refine addEarlier_of_lt fun m h => ?_
          rcases List.mem_cons.1 (List.mem_of_mem_filter h) with rfl | h
          · exact before
          · exact lt_trans before (ahead m h)
        rw [front, List.filter_cons]
      · rename_i behind
        rw [List.filter_cons, ih later, List.filter_cons]
        cases keeps : keep first.1
        · rfl
        · cases keep name
          · rfl
          · simp [addEarlier, other, behind]

/-- A member with a new name is found under it, and the others as before. -/
theorem lookup_addEarlier (new : name ∉ members.map (·.1)) (other : String) :
    (addEarlier name value members).lookup other
      = if other = name then some value else members.lookup other := by
  induction members with
  | nil => rw [addEarlier, lookup_cons]
  | cons first rest ih =>
    obtain ⟨apart, new⟩ := not_or.1 (List.mem_cons.not.1 new)
    rw [addEarlier, if_neg apart]
    split
    · rw [lookup_cons]
    · rw [lookup_cons, ih new, lookup_cons]
      by_cases own : other = first.1
      · rw [if_pos own, if_pos own, if_neg fun same => apart (same.symm.trans own)]
      · rw [if_neg own, if_neg own]

/-- The names are those from before and the one that was added. -/
theorem mem_names_addEarlier (other : String) :
    other ∈ (addEarlier name value members).map (·.1)
      ↔ other = name ∨ other ∈ members.map (·.1) := by
  induction members with
  | nil => simp [addEarlier]
  | cons first rest ih =>
    rw [addEarlier]
    split
    · rename_i same
      simp [same]
    · split
      · simp
      · rw [List.map_cons, List.mem_cons, ih, List.map_cons, List.mem_cons, or_left_comm]

end

/-- Members of a plain value are sorted by name. -/
theorem sorted_settleMembers (members : List (String × Json)) :
    Sorted (settleMembers members) := by
  induction members with
  | nil => exact List.Pairwise.nil
  | cons first rest ih => exact sorted_addEarlier ih

/-- Sorting members keeps their names. -/
theorem mem_names_settleMembers (members : List (String × Json)) (name : String) :
    name ∈ (settleMembers members).map (·.1) ↔ name ∈ members.map (·.1) := by
  induction members with
  | nil => rfl
  | cons first rest ih =>
    rw [settleMembers, mem_names_addEarlier, ih, List.map_cons, List.mem_cons]

/-- Members of some names are sorted as if they were alone. -/
theorem filter_settleMembers (members : List (String × Json)) (keep : String → Bool) :
    (settleMembers members).filter (fun m => keep m.1)
      = settleMembers (members.filter fun m => keep m.1) := by
  induction members with
  | nil => rfl
  | cons first rest ih =>
    rw [settleMembers, filter_addEarlier (sorted_settleMembers rest), ih, List.filter_cons]
    split <;> rfl

/-- Where no name occurs twice, each member keeps its value. -/
theorem lookup_settleMembers {members : List (String × Json)}
    (distinct : (members.map (·.1)).Nodup) (name : String) :
    (settleMembers members).lookup name = (members.lookup name).map settle := by
  induction members with
  | nil => rfl
  | cons first rest ih =>
    obtain ⟨new, distinct⟩ := List.nodup_cons.1 distinct
    rw [settleMembers, lookup_addEarlier ((mem_names_settleMembers ..).not.2 new), ih distinct,
      lookup_cons]
    split <;> rfl

/-! ## Decoders -/

/-- A decoder that finds something in a value finds it in the plain value as well, changed in the
given way. -/
def Settles {α : Type} (decode : Json → Option α) (change : α → α) : Prop :=
  ∀ ⦃j a⦄, decode j = some a → decode j.settle = some (change a)

/-- Only null becomes null as a plain value. -/
theorem settle_eq_null_iff {j : Json} : j.settle = .null ↔ j = .null := by
  cases j <;> simp [settle]

/-- A string is found in its plain value. -/
theorem settles_string? : Settles string? id := by
  intro j s h
  rw [eq_str_of_string? h]
  rfl

/-- A count is found in its plain value. -/
theorem settles_count? : Settles count? id := by
  intro j n h
  unfold count? at h
  split at h
  · exact h
  · cases h

/-- An index is found in its plain value. -/
theorem settles_index? : Settles index? id := by
  intro j i h
  unfold index? at h
  split at h
  · exact h
  · cases h

/-- Any value is found in its plain value, as a plain value. -/
theorem settles_some : Settles some settle := fun _ _ h =>
  congrArg (some ∘ settle) (Option.some.inj h)

/-- The items of an array are found as plain values. -/
theorem settles_items? : Settles items? (List.map settle) := by
  intro j xs h
  unfold items? at h
  split at h
  · cases h
    rw [settle, settleItems_eq_map]
    rfl
  · cases h

/-- What is found in each item of an array is found in each plain item. -/
theorem settles_list? {α : Type} {decode : Json → Option α} {change : α → α}
    (each : Settles decode change) : Settles (list? decode) (List.map change) := by
  intro j as h
  unfold list? at h
  split at h
  · rename_i xs
    rw [settle, settleItems_eq_map]
    show (xs.map settle).mapM decode = _
    induction xs generalizing as with
    | nil =>
      cases h
      rfl
    | cons x xs ih =>
      rw [List.mapM_cons] at h
      obtain ⟨a, first, h⟩ := Option.bind_eq_some_iff.1 h
      obtain ⟨as, rest, h⟩ := Option.bind_eq_some_iff.1 h
      cases h
      rw [List.map_cons, List.mapM_cons, each first, ih rest]
      rfl
  · cases h

end Json

/-! ## Records -/

/-- A record has the fields of another one, with plain values. -/
def Record.SettlesTo (r plain : Record) : Prop :=
  ∀ name, plain.lookup name = (r.lookup name).map Json.settle

namespace Json

/-- Where every value becomes plain, a name finds the plain value of what it found. -/
theorem lookup_map_settle (members : List (String × Json)) (name : String) :
    (members.map fun m => (m.1, m.2.settle)).lookup name = (members.lookup name).map settle := by
  induction members with
  | nil => rfl
  | cons first rest ih =>
    rw [List.map_cons, lookup_cons, lookup_cons, ih]
    split <;> rfl

/-- The fields of a record are found in its plain value, as plain values. -/
theorem settles_record? {fields : List Field} {j : Json} {r : Record}
    (h : record? fields j = some r) :
    ∃ plain, record? fields j.settle = some plain ∧ r.SettlesTo plain := by
  unfold record? at h
  split at h
  -- in an object the known fields stay the same ones, each named once
  · rename_i members
    dsimp only at h
    split at h
    · rename_i distinct
      cases h
      refine ⟨_, ?_, lookup_settleMembers distinct⟩
      have known := filter_settleMembers members fun name => fields.any (·.name = name)
      have once : ((settleMembers (members.filter fun m => fields.any (·.name = m.1))).map
          (·.1)).Nodup :=
        List.pairwise_map.2 ((sorted_settleMembers _).imp ne_of_lt)
      rw [settle, record?, known, if_pos once]
    · cases h
  -- in an array the places of the fields stay the same
  · rename_i xs
    split at h
    · rename_i fits
      cases h
      refine ⟨_, ?_, lookup_map_settle _⟩
      rw [settle, settleItems_eq_map, record?, List.length_map, if_pos fits, List.zip_map_right]
      rfl
    · cases h
  · cases h

/-- A tag is found in the plain value of a tagged record, in front of plain fields. -/
theorem settles_tagged? {tag name : String} {j body : Json}
    (h : tagged? tag j = some (name, body)) : tagged? tag j.settle = some (name, body.settle) := by
  unfold tagged? at h
  split at h
  · rename_i members
    have tags := filter_settleMembers members fun name => decide (name = tag)
    have others := filter_settleMembers members fun name => decide (name ≠ tag)
    split at h
    · rename_i text found
      cases h
      rw [found] at tags
      simp only [settle, tagged?, tags, others]
      rfl
    · cases h
  · cases h
    rfl
  · cases h

end Json

namespace Record

variable {r plain : Record} {name : String} {α : Type} {decode : Json → Option α} {change : α → α}

/-- A field that must be given is found among plain fields. -/
theorem SettlesTo.required (same : r.SettlesTo plain) (each : Json.Settles decode change) {a : α}
    (h : r.required name decode = some a) : plain.required name decode = some (change a) := by
  obtain ⟨v, look, read⟩ := lookup_of_required h
  rw [Record.required, same name, look]
  exact each read

/-- A field that may be left out is found among plain fields, if it is there. -/
theorem SettlesTo.optional (same : r.SettlesTo plain) (each : Json.Settles decode change)
    {o : Option α} (h : r.optional name decode = some o) :
    plain.optional name decode = some (o.map change) := by
  have look := same name
  unfold Record.optional at h
  split at h
  · rename_i missing
    cases h
    rw [Record.optional, look, missing]
    rfl
  · rename_i null
    cases h
    rw [Record.optional, look, null]
    rfl
  · rename_i v present given
    obtain ⟨a, read, rfl⟩ := Option.map_eq_some_iff.1 h
    have plainly : plain.lookup name = (some (change a)).map fun _ => v.settle := by
      rw [look, given]
      rfl
    refine optional_of_lookup plainly ?_ fun _ null => ?_
    · rintro _ ⟨⟩
      exact each read
    · exact present (Json.settle_eq_null_iff.1 null)

end Record

/-- A decoder of records settles if what it does with the fields does. -/
theorem Json.settles_fields {α : Type} {fields : List Field} {decode : Record → Option α}
    {change : α → α} (each : ∀ {r plain : Record} {a : α}, r.SettlesTo plain → decode r = some a →
      decode plain = some (change a)) :
    Settles (fun j => j.record? fields >>= decode) change := by
  intro j a h
  obtain ⟨r, given, read⟩ := Option.bind_eq_some_iff.1 h
  obtain ⟨plain, sorted, same⟩ := settles_record? given
  exact Option.bind_eq_some_iff.2 ⟨plain, sorted, each same read⟩

/-! ## Edits and batches -/

namespace Edit

/-- An edit that carries one item is found with its plain item. -/
theorem settles_itemFields? {make : Int → Item → Edit Item}
    (carries : ∀ i x, (make i x).map Json.settle = make i x.settle) :
    Json.Settles (itemFields? make) (map Json.settle) := by
  refine Json.settles_fields fun same h => ?_
  simp only [Option.bind_eq_bind, Option.bind_eq_some_iff, Option.pure_def,
    Option.some.injEq] at h
  obtain ⟨i, index, x, item, rfl⟩ := h
  simp only [same.required Json.settles_index? index, same.required Json.settles_some item, carries]
  rfl

/-- An edit is found in its plain value, with plain items. -/
theorem settles_ofJson? : Json.Settles ofJson? (map Json.settle) := by
  intro j e h
  simp only [ofJson?, Option.bind_eq_bind, Option.bind_eq_some_iff] at h
  obtain ⟨⟨tag, body⟩, tagged, h⟩ := h
  rw [ofJson?, Json.settles_tagged? tagged]
  dsimp only at h
  split at h
  · exact settles_itemFields? (fun _ _ => rfl) h
  · exact settles_itemFields? (fun _ _ => rfl) h
  · refine Json.settles_fields (fun same h => ?_) h
    simp only [Option.bind_eq_bind, Option.bind_eq_some_iff, Option.pure_def,
      Option.some.injEq] at h
    obtain ⟨i, index, xs, items, rfl⟩ := h
    simp only [same.required Json.settles_index? index, same.required Json.settles_items? items]
    rfl
  · refine Json.settles_fields (fun same h => ?_) h
    simp only [Option.bind_eq_bind, Option.bind_eq_some_iff, Option.pure_def,
      Option.some.injEq] at h
    obtain ⟨i, index, rfl⟩ := h
    simp only [same.required Json.settles_index? index]
    rfl
  · refine Json.settles_fields (fun same h => ?_) h
    simp only [Option.bind_eq_bind, Option.bind_eq_some_iff, Option.pure_def,
      Option.some.injEq] at h
    obtain ⟨i, index, n, count, rfl⟩ := h
    simp only [same.required Json.settles_index? index, same.required Json.settles_count? count]
    rfl
  · cases h

end Edit

namespace Batch

/-- A batch with plain items. -/
def settle (b : Batch) : Batch := { b with edits := b.edits.map (Edit.map Json.settle) }

/-- A batch is found in its plain value, with plain items. -/
theorem settles_ofJson? : Json.Settles ofJson? settle := by
  refine Json.settles_fields fun same h => ?_
  simp only [Option.bind_eq_bind, Option.bind_eq_some_iff, Option.pure_def,
    Option.some.injEq] at h
  obtain ⟨listId, named, version, numbered, edits, changed, rfl⟩ := h
  simp only [same.required Json.settles_string? named, same.required Json.settles_count? numbered,
    same.required (Json.settles_list? Edit.settles_ofJson?) changed]
  rfl

end Batch

/-! ## Answers and listings -/

namespace RangeAnswer

/-- An answer with plain items. -/
def settle (a : RangeAnswer) : RangeAnswer := { a with items := a.items.map Json.settle }

/-- The answer to a fetch of a range is found in its plain value, with plain items. -/
theorem settles_ofJson? : Json.Settles ofJson? settle := by
  refine Json.settles_fields fun same h => ?_
  simp only [Option.bind_eq_bind, Option.bind_eq_some_iff, Option.pure_def,
    Option.some.injEq] at h
  obtain ⟨listId, hl, token, ht, version, hv, start, hs, lo, hlo, hi, hhi, items, hx, rfl⟩ := h
  simp only [same.required Json.settles_string? hl, same.required Json.settles_string? ht,
    same.optional Json.settles_count? hv, same.required Json.settles_index? hs,
    same.optional Json.settles_index? hlo, same.optional Json.settles_index? hhi,
    same.required Json.settles_items? hx, Option.map_id_fun, id]
  rfl

end RangeAnswer

namespace PageAnswer

/-- An answer with plain items. -/
def settle (a : PageAnswer) : PageAnswer := { a with items := a.items.map Json.settle }

/-- The answer to a fetch of a page is found in its plain value, with plain items. -/
theorem settles_ofJson? : Json.Settles ofJson? settle := by
  refine Json.settles_fields fun same h => ?_
  simp only [Option.bind_eq_bind, Option.bind_eq_some_iff, Option.pure_def,
    Option.some.injEq] at h
  obtain ⟨listId, hl, token, ht, version, hv, page, hp, next, hn, items, hx, rfl⟩ := h
  simp only [same.required Json.settles_string? hl, same.required Json.settles_string? ht,
    same.optional Json.settles_count? hv, same.required Json.settles_string? hp,
    same.optional Json.settles_string? hn, same.required Json.settles_items? hx,
    Option.map_id_fun, id]
  rfl

end PageAnswer

namespace IndexListing

/-- A listing with plain items. -/
def settle (p : IndexListing) : IndexListing := { p with items := p.items.map Json.settle }

/-- The first payload of an index list is found in its plain value, with plain items. -/
theorem settles_ofJson? : Json.Settles ofJson? settle := by
  refine Json.settles_fields fun same h => ?_
  simp only [Option.bind_eq_bind, Option.bind_eq_some_iff, Option.pure_def,
    Option.some.injEq] at h
  obtain ⟨listId, hl, version, hv, start, hs, lo, hlo, hi, hhi, items, hx, rfl⟩ := h
  simp only [same.required Json.settles_string? hl, same.optional Json.settles_count? hv,
    same.required Json.settles_index? hs, same.optional Json.settles_index? hlo,
    same.optional Json.settles_index? hhi, same.required Json.settles_items? hx,
    Option.map_id_fun, id]
  rfl

end IndexListing

namespace TokenListing

/-- A listing with plain items. -/
def settle (p : TokenListing) : TokenListing := { p with items := p.items.map Json.settle }

/-- The first payload of a token list is found in its plain value, with plain items. -/
theorem settles_ofJson? : Json.Settles ofJson? settle := by
  refine Json.settles_fields fun same h => ?_
  simp only [Option.bind_eq_bind, Option.bind_eq_some_iff, Option.pure_def,
    Option.some.injEq] at h
  obtain ⟨listId, hl, version, hv, page, hp, forward, hf, backward, hb, items, hx, rfl⟩ := h
  simp only [same.required Json.settles_string? hl, same.optional Json.settles_count? hv,
    same.required Json.settles_string? hp, same.optional Json.settles_string? hf,
    same.optional Json.settles_string? hb, same.required Json.settles_items? hx,
    Option.map_id_fun, id]
  rfl

end TokenListing

/-! ## Payloads -/

namespace Json

/-- A name finds something exactly if it is the name of a member. -/
theorem isSome_lookup_iff {members : List (String × Json)} {name : String} :
    (members.lookup name).isSome ↔ name ∈ members.map (·.1) := by
  simp only [List.lookup_isSome_iff, List.mem_map, beq_iff_eq]
  exact exists_congr fun _ => and_congr_right fun _ => eq_comm

/-- A plain value has the members that the value had. -/
theorem isSome_member?_settle (j : Json) (name : String) :
    (j.settle.member? name).isSome = (j.member? name).isSome := by
  cases j with
  | obj members =>
    rw [Bool.eq_iff_iff, settle, member?, member?, isSome_lookup_iff, isSome_lookup_iff]
    exact mem_names_settleMembers members name
  | _ => rfl

/-- Where no name occurs twice, each member of an object is that of the plain value. -/
theorem member?_settle {members : List (String × Json)} (distinct : (members.map (·.1)).Nodup)
    (name : String) :
    (Json.obj members).settle.member? name = ((Json.obj members).member? name).map settle :=
  lookup_settleMembers distinct name

/-- A plain value is a string exactly where the value was one, and then the same. -/
@[simp]
theorem string?_settle (j : Json) : j.settle.string? = j.string? := by cases j <;> rfl

end Json

/-- A payload that fits fits as a plain value, with plain items. -/
theorem fitting_settle {α : Type} {decode : Json → Option α} {change : α → α}
    (each : Json.Settles decode change) {j : Json} {a : α} (h : fitting (decode j) = .ok a) :
    fitting (decode j.settle) = .ok (change a) := by
  rw [each (eq_some_of_fitting h)]
  rfl

namespace Update

/-- An update with plain items. -/
def settle : Update → Update
  | batch b => batch b.settle
  | range a => range a.settle
  | page a => page a.settle

/-- What a value is read as does not depend on the order of its members. -/
theorem parse_settle {kind : Kind} {j : Json} {u : Update} (h : parse kind j = .ok u) :
    parse kind j.settle = .ok u.settle := by
  cases j with
  | obj members =>
    -- which of the three forms is read depends on two names, and sorting keeps the names
    have edits := (Json.obj members).isSome_member?_settle "operations"
    have answers := (Json.obj members).isSome_member?_settle "correlationToken"
    rw [Json.settle] at edits answers ⊢
    simp only [parse] at h ⊢
    rw [edits, answers]
    split at h
    · rename_i edited
      obtain ⟨b, read, ⟨⟩⟩ := bind_eq_ok_iff.1 h
      rw [if_pos edited]
      exact bind_eq_ok_iff.2 ⟨_, fitting_settle Batch.settles_ofJson? read, rfl⟩
    · rename_i plain
      rw [if_neg plain]
      split at h
      · rename_i tokened
        rw [if_pos tokened]
        cases kind with
        | index =>
          obtain ⟨a, read, ⟨⟩⟩ := bind_eq_ok_iff.1 h
          exact bind_eq_ok_iff.2 ⟨_, fitting_settle RangeAnswer.settles_ofJson? read, rfl⟩
        | token =>
          obtain ⟨a, read, ⟨⟩⟩ := bind_eq_ok_iff.1 h
          exact bind_eq_ok_iff.2 ⟨_, fitting_settle PageAnswer.settles_ofJson? read, rfl⟩
      · cases h
  | _ => cases h

end Update

namespace Listing

/-- A listing with plain items. -/
def settle : Listing → Listing
  | index p => index p.settle
  | token p => token p.settle

/-- Sorting the members does not change what the tag of a payload is checked to be. -/
theorem checkTag_settle {members : List (String × Json)} (distinct : (members.map (·.1)).Nodup)
    (kind : Kind) : checkTag kind (Json.obj members).settle = checkTag kind (.obj members) := by
  unfold checkTag
  rw [Json.member?_settle distinct, Option.bind_map]
  simp only [Function.comp_def, Json.string?_settle]

/-- What an object is read as does not depend on the order of its members, if no name occurs
twice. -/
theorem parse_settle {kind : Kind} {members : List (String × Json)} {p : Listing}
    (distinct : (members.map (·.1)).Nodup) (h : parse kind (.obj members) = .ok p) :
    parse kind (Json.obj members).settle = .ok p.settle := by
  unfold parse at h ⊢
  rw [checkTag_settle distinct]
  obtain ⟨_, tagged, h⟩ := bind_eq_ok_iff.1 h
  refine bind_eq_ok_iff.2 ⟨_, tagged, ?_⟩
  cases kind with
  | index =>
    obtain ⟨p', hp, ⟨⟩⟩ := bind_eq_ok_iff.1 h
    exact bind_eq_ok_iff.2 ⟨_, fitting_settle IndexListing.settles_ofJson? hp, rfl⟩
  | token =>
    obtain ⟨p', hp, ⟨⟩⟩ := bind_eq_ok_iff.1 h
    exact bind_eq_ok_iff.2 ⟨_, fitting_settle TokenListing.settles_ofJson? hp, rfl⟩

end Listing

end ListSync
