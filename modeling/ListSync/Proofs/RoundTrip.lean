import ListSync.Proofs.Payload

/-!
# What is written reads back

A batch whose numbers fit 64 bits is read back as it was written, for either kind of list and
whatever the items it carries (`Update.parse_toJson_batch`). So are the answers to fetches of ranges
and of pages (`Update.parse_toJson_range`, `Update.parse_toJson_page`) and the first payloads of
index lists and of token lists (`Listing.parse_toJson_index`, `Listing.parse_toJson_token`).
-/

namespace ListSync

/-! ## Edits -/

/-- A record with its tag in front is taken apart into tag and fields. -/
theorem Json.tagged?_cons {tag name : String} {fields : List (String × Json)}
    (untagged : ∀ f ∈ fields, f.1 ≠ tag) :
    Json.tagged? tag (.obj ((tag, .str name) :: fields)) = some (name, .obj fields) := by
  have none : fields.filter (·.1 = tag) = [] := by
    rw [List.filter_eq_nil_iff]
    intro f hf
    simpa using untagged f hf
  have all : fields.filter (·.1 ≠ tag) = fields := by
    rw [List.filter_eq_self]
    intro f hf
    simpa using untagged f hf
  simp only [Json.tagged?, List.filter_cons, decide_true, if_true, none, ne_eq, not_true_eq_false,
    decide_false, Bool.false_eq_true, if_false]
  rw [show fields.filter (fun m => decide (¬m.1 = tag)) = fields from all]

namespace Edit

/-- The numbers of an edit fit 64 bits. -/
structure InRange {α : Type} (e : Edit α) : Prop where
  index : Index.InRange e.index
  count : ∀ i n, e = .deleteMany i n → n ≤ maxCount

/-- An edit fits the machine if its index does, and the count of a deletion of several items. -/
theorem inRange_iff {α : Type} {e : Edit α} : e.InRange ↔ Index.InRange e.index ∧
    (match e with | deleteMany _ n => n | _ => 0) ≤ maxCount := by
  constructor
  · rintro ⟨index, count⟩
    refine ⟨index, ?_⟩
    cases e with
    | deleteMany i n => exact count i n rfl
    | _ => exact Nat.zero_le _
  · rintro ⟨index, count⟩
    refine ⟨index, ?_⟩
    rintro i n rfl
    exact count

instance {α : Type} (e : Edit α) : Decidable e.InRange := decidable_of_iff' _ inRange_iff

/-- An edit that fits the machine is read back as it was written. -/
theorem ofJson?_toJson {e : Edit Item} (h : e.InRange) : ofJson? e.toJson = some e := by
  obtain ⟨index, count⟩ := h
  have read := Json.index?_ofInt index
  cases e with
  | insert i x | set i x =>
    dsimp only [Edit.index] at read
    rw [ofJson?, toJson, Json.tagged?_cons (by simp)]
    simp [name, itemFields?, Json.record?, Field.name, Record.required, List.lookup_cons, read]
  | insertMany i xs =>
    dsimp only [Edit.index] at read
    rw [ofJson?, toJson, Json.tagged?_cons (by simp)]
    simp [name, Json.record?, Field.name, Record.required, List.lookup_cons, Json.items?, read]
  | delete i =>
    dsimp only [Edit.index] at read
    rw [ofJson?, toJson, Json.tagged?_cons (by simp)]
    simp [name, Json.record?, Field.name, Record.required, read]
  | deleteMany i n =>
    dsimp only [Edit.index] at read
    rw [ofJson?, toJson, Json.tagged?_cons (by simp)]
    simp [name, Json.record?, Field.name, Record.required, List.lookup_cons, read,
      Json.count?_ofNat (count i n rfl)]

end Edit

/-! ## Batches -/

/-- What is decoded item by item from encoded items are the items. -/
theorem mapM_map_of_inverse {α β : Type} {encode : α → β} {decode : β → Option α} {xs : List α}
    (h : ∀ x ∈ xs, decode (encode x) = some x) : (xs.map encode).mapM decode = some xs := by
  induction xs with
  | nil => rfl
  | cons x xs ih =>
    rw [List.map_cons, List.mapM_cons, h x List.mem_cons_self,
      ih fun y hy => h y (List.mem_cons_of_mem x hy)]
    rfl

namespace Batch

/-- The numbers of a batch fit 64 bits. -/
structure InRange (b : Batch) : Prop where
  version : b.version ≤ maxCount
  edits : ∀ e ∈ b.edits, e.InRange

/-- A batch that fits the machine is read back as it was written. -/
theorem ofJson?_toJson {b : Batch} (h : b.InRange) : ofJson? b.toJson = some b := by
  have edits : Json.list? Edit.ofJson? (.arr (b.edits.map Edit.toJson)) = some b.edits :=
    mapM_map_of_inverse fun e he => Edit.ofJson?_toJson (h.edits e he)
  simp [ofJson?, toJson, fields, Json.record?, Field.name, Record.required, List.lookup_cons,
    Json.string?, Json.count?_ofNat h.version, edits]

end Batch

/-- A batch that is written is read as this batch, for either kind of list. -/
theorem Update.parse_toJson_batch {b : Batch} (h : b.InRange) (kind : Kind) :
    Update.parse kind b.toJson = .ok (.batch b) := by
  have read : Batch.ofJson? b.toJson = some b := Batch.ofJson?_toJson h
  have edited : (b.toJson.member? "operations").isSome = true := by
    simp [Batch.toJson, Json.member?, List.lookup_cons]
  have form : b.toJson = .obj [("listId", .str b.listId), ("listVersion", Json.ofNat b.version),
      ("operations", .arr (b.edits.map Edit.toJson))] := rfl
  rw [form] at read edited ⊢
  unfold Update.parse
  simp only [edited, if_true, read]
  rfl

/-! ## Members that may be left out -/

namespace Json

/-- A member that may be missing is found under its own name only. -/
@[simp]
theorem lookup_given (name other : String) (value : Option Json) :
    (given name value).lookup other = if other = name then value else none := by
  cases value with
  | none => simp [given]
  | some v => rw [given, lookup_cons, List.lookup_nil]

/-- A member that may be missing has no other name than its own. -/
theorem sublist_given (name : String) (value : Option Json) :
    ((given name value).map (·.1)).Sublist [name] := by
  cases value with
  | none => exact List.nil_sublist _
  | some v => exact List.Sublist.refl _

/-- Members in the order of the fields of a record are its fields. -/
theorem record?_of_sublist {fields : List Field} {members : List (String × Json)}
    (names : (members.map (·.1)).Sublist (fields.map (·.name)))
    (distinct : (fields.map (·.name)).Nodup) : record? fields (.obj members) = some members := by
  have known : members.filter (fun m => fields.any (·.name = m.1)) = members := by
    rw [List.filter_eq_self]
    intro m h
    obtain ⟨f, hf, same⟩ := List.mem_map.1 (names.subset (List.mem_map_of_mem h))
    exact List.any_eq_true.2 ⟨f, hf, decide_eq_true same⟩
  rw [record?, known, if_pos (distinct.sublist names)]

/-- A member that is no field is ignored. -/
theorem record?_cons_unknown {fields : List Field} {name : String}
    (unknown : fields.any (·.name = name) = false) (v : Json) (members : List (String × Json)) :
    record? fields (.obj ((name, v) :: members)) = record? fields (.obj members) := by
  simp only [record?, List.filter_cons, unknown, Bool.false_eq_true, if_false]

/-- A written index is not null. -/
theorem ofInt_ne_null (i : Int) : ofInt i ≠ .null := by simp [ofInt]

/-- A written count is not null. -/
theorem ofNat_ne_null (n : Nat) : ofNat n ≠ .null := by simp [ofNat]

end Json

namespace Record

variable {α : Type} {r : Record} {name : String} {decode : Json → Option α}

/-- A field that may be left out is read back if its value is. -/
theorem optional_of_lookup {encode : α → Json} {o : Option α}
    (look : r.lookup name = o.map encode) (read : ∀ a ∈ o, decode (encode a) = some a)
    (present : ∀ a, encode a ≠ .null) : r.optional name decode = some o := by
  unfold optional
  cases o with
  | none => rw [look, Option.map_none]
  | some a =>
    rw [look, Option.map_some]
    split
    · rename_i none
      cases none
    · rename_i null
      exact absurd (Option.some.inj null) (present a)
    · rename_i v given
      rw [← Option.some.inj given, read a rfl, Option.map_some]

end Record

/-! ## Ranges in answers and listings -/

/-- The fields that say which items there are of a range, in an answer as in a listing. -/
def rangeNames : List String :=
  ["listVersion", "startIndex", "minimumInclusiveIndex", "maximumExclusiveIndex", "items"]

/-- The members behind the first ones of an answer or a listing. -/
def rangeMembers (front : Record) (version : Option Version) (start : Int)
    (minimum maximum : Option Int) (items : List Item) : Record :=
  front ++ Json.given "listVersion" (version.map Json.ofNat) ++ [("startIndex", Json.ofInt start)]
    ++ Json.given "minimumInclusiveIndex" (minimum.map Json.ofInt)
    ++ Json.given "maximumExclusiveIndex" (maximum.map Json.ofInt) ++ [("items", .arr items)]

section

variable {front : Record} {version : Option Version} {start : Int} {minimum maximum : Option Int}

/-- The members that describe a range are written in their order, some of them left out. -/
theorem sublist_rangeMembers {names : List String} (first : front.map (·.1) = names)
    (items : List Item) :
    ((rangeMembers front version start minimum maximum items).map (·.1)).Sublist
      (names ++ rangeNames) := by
  have behind := ((((Json.sublist_given "listVersion" (version.map Json.ofNat)).append
    (.refl ["startIndex"])).append
    (Json.sublist_given "minimumInclusiveIndex" (minimum.map Json.ofInt))).append
    (Json.sublist_given "maximumExclusiveIndex" (maximum.map Json.ofInt))).append (.refl ["items"])
  have all := (List.Sublist.refl names).append behind
  simp only [List.append_assoc] at all
  simp only [rangeMembers, List.map_append, first, List.append_assoc]
  exact all

/-- What a record says of a range. -/
structure RangeRead (r : Record) (version : Option Version) (start : Int)
    (minimum maximum : Option Int) (items : List Item) : Prop where
  version : r.optional "listVersion" Json.count? = some version
  start : r.required "startIndex" Json.index? = some start
  minimum : r.optional "minimumInclusiveIndex" Json.index? = some minimum
  maximum : r.optional "maximumExclusiveIndex" Json.index? = some maximum
  items : r.required "items" Json.items? = some items

/-- The members that describe a range are read back as they were written, behind any others. -/
theorem rangeRead_rangeMembers (apart : ∀ name ∈ rangeNames, front.lookup name = none)
    (fits : ∀ v ∈ version, v ≤ maxCount) (index : Index.InRange start)
    (low : ∀ i ∈ minimum, Index.InRange i) (high : ∀ i ∈ maximum, Index.InRange i)
    (items : List Item) :
    RangeRead (rangeMembers front version start minimum maximum items) version start minimum
      maximum items := by
  simp only [rangeNames, List.forall_mem_cons] at apart
  obtain ⟨noVersion, noStart, noMinimum, noMaximum, noItems, -⟩ := apart
  constructor
  · refine Record.optional_of_lookup ?_ (fun v h => Json.count?_ofNat (fits v h)) Json.ofNat_ne_null
    simp [rangeMembers, List.lookup_append, List.lookup_cons, noVersion]
  · rw [← Json.index?_ofInt index, Record.required]
    simp [rangeMembers, List.lookup_append, noStart]
  · refine Record.optional_of_lookup ?_ (fun i h => Json.index?_ofInt (low i h)) Json.ofInt_ne_null
    simp [rangeMembers, List.lookup_append, List.lookup_cons, noMinimum]
  · refine Record.optional_of_lookup ?_ (fun i h => Json.index?_ofInt (high i h)) Json.ofInt_ne_null
    simp [rangeMembers, List.lookup_append, List.lookup_cons, noMaximum]
  · rw [Record.required]
    simp [rangeMembers, List.lookup_append, List.lookup_cons, noItems, Json.items?]

end

/-- An answer whose numbers fit 64 bits is read back as it was written. -/
theorem RangeAnswer.ofJson?_toJson {a : RangeAnswer} (h : a.InRange)
    (version : ∀ v ∈ a.version, v ≤ maxCount) : ofJson? a.toJson = some a := by
  have apart : ∀ name ∈ rangeNames,
      [("listId", Json.str a.listId), ("correlationToken", .str a.token)].lookup name = none := by
    simp [rangeNames, List.lookup_cons]
  have record : Json.record? fields a.toJson = some (rangeMembers _ _ _ _ _ _) :=
    Json.record?_of_sublist (sublist_rangeMembers rfl _) (by decide)
  obtain ⟨version', start, minimum, maximum, items⟩ :=
    rangeRead_rangeMembers apart version h.start h.minimum h.maximum a.items
  rw [ofJson?, record]
  simp only [Option.bind_eq_bind, Option.bind_some, version', start, minimum, maximum, items]
  rfl

/-- The first payload of an index list is written in the order of its fields. -/
theorem IndexListing.sublist_members (p : IndexListing) :
    (p.members.map (·.1)).Sublist (fields.map (·.name)) := sublist_rangeMembers rfl p.items

/-- A listing whose numbers fit 64 bits is read back as it was written, whatever its tag says. -/
theorem IndexListing.ofJson?_cons_members {p : IndexListing} (h : (Listing.index p).InRange)
    (version : ∀ v ∈ p.version, v ≤ maxCount) (tag : Json) :
    ofJson? (.obj (("type", tag) :: p.members)) = some p := by
  obtain ⟨first, low, high⟩ := h
  have apart : ∀ name ∈ rangeNames, [("listId", Json.str p.listId)].lookup name = none := by
    simp [rangeNames, List.lookup_cons]
  have record : Json.record? fields (.obj p.members) = some (rangeMembers _ _ _ _ _ _) :=
    Json.record?_of_sublist p.sublist_members (by decide)
  obtain ⟨version', start, minimum, maximum, items⟩ :=
    rangeRead_rangeMembers apart version first low high p.items
  rw [ofJson?, Json.record?_cons_unknown (by decide), record]
  simp only [Option.bind_eq_bind, Option.bind_some, version', start, minimum, maximum, items]
  rfl

/-- An answer that is written is read as this answer. -/
theorem Update.parse_toJson_range {a : RangeAnswer} (h : a.InRange)
    (version : ∀ v ∈ a.version, v ≤ maxCount) : Update.parse .index a.toJson = .ok (.range a) := by
  have read : RangeAnswer.ofJson? a.toJson = some a := RangeAnswer.ofJson?_toJson h version
  have plain : (a.toJson.member? "operations").isSome = false := by
    obtain ⟨listId, token, v, start, lo, hi, items⟩ := a
    cases v <;> cases lo <;> cases hi <;> rfl
  have tokened : (a.toJson.member? "correlationToken").isSome = true := rfl
  unfold Update.parse
  split
  · simp only [plain, tokened, read, Bool.false_eq_true, if_false, if_true]
    rfl
  · rename_i other
    exact absurd rfl (other _)

/-- A listing that is written is read as this listing. -/
theorem Listing.parse_toJson_index {p : IndexListing} (h : (Listing.index p).InRange)
    (version : ∀ v ∈ p.version, v ≤ maxCount) :
    Listing.parse .index (Listing.index p).toJson = .ok (.index p) := by
  have read := IndexListing.ofJson?_cons_members h version Kind.index.toJson
  simp only [Listing.parse, Listing.toJson, read]
  rfl

/-! ## Pages in answers and listings -/

/-- The members behind the first ones of an answer or a listing, with the tokens of the pages beyond
in between. -/
def pageMembers (front : Record) (version : Option Version) (page : String) (beyond : Record)
    (items : List Item) : Record :=
  front ++ Json.given "listVersion" (version.map Json.ofNat) ++ [("pageToken", .str page)]
    ++ beyond ++ [("items", .arr items)]

section

variable (front beyond : Record) {version : Option Version}

/-- The members that describe a page are written in their order, some of them left out. -/
theorem sublist_pageMembers {tokens : List String} (last : (beyond.map (·.1)).Sublist tokens)
    (page : String) (items : List Item) :
    ((pageMembers front version page beyond items).map (·.1)).Sublist
      (front.map (·.1) ++ ["listVersion", "pageToken"] ++ tokens ++ ["items"]) := by
  have behind := (((Json.sublist_given "listVersion" (version.map Json.ofNat)).append
    (.refl ["pageToken"])).append last).append (.refl ["items"])
  have all := (List.Sublist.refl (front.map (·.1))).append behind
  simp only [List.append_assoc] at all
  simp only [pageMembers, List.map_append, List.append_assoc]
  exact all

/-- What a record says of a page. -/
structure PageRead (r : Record) (version : Option Version) (page : String) (items : List Item) :
    Prop where
  version : r.optional "listVersion" Json.count? = some version
  page : r.required "pageToken" Json.string? = some page
  items : r.required "items" Json.items? = some items

/-- The members that describe a page are read back as they were written, between any others. -/
theorem pageRead_pageMembers
    (apart : ∀ name ∈ ["listVersion", "pageToken", "items"],
      front.lookup name = none ∧ beyond.lookup name = none)
    (fits : ∀ v ∈ version, v ≤ maxCount) (page : String) (items : List Item) :
    PageRead (pageMembers front version page beyond items) version page items := by
  simp only [List.forall_mem_cons] at apart
  obtain ⟨⟨noVersion, noVersion'⟩, ⟨noPage, -⟩, ⟨noItems, noItems'⟩, -⟩ := apart
  constructor
  · refine Record.optional_of_lookup ?_ (fun v h => Json.count?_ofNat (fits v h)) Json.ofNat_ne_null
    simp [pageMembers, List.lookup_append, List.lookup_cons, noVersion, noVersion']
  · rw [Record.required]
    simp [pageMembers, List.lookup_append, noPage, Json.string?]
  · rw [Record.required]
    simp [pageMembers, List.lookup_append, List.lookup_cons, noItems, noItems', Json.items?]

/-- The token of a page beyond is read back from among the members. -/
theorem optional_pageMembers {name : String} {token : Option String}
    (here : beyond.lookup name = token.map Json.str) (apart : front.lookup name = none)
    (other : name ≠ "listVersion" ∧ name ≠ "pageToken" ∧ name ≠ "items") (page : String)
    (items : List Item) :
    (pageMembers front version page beyond items).optional name Json.string? = some token := by
  obtain ⟨noVersion, noPage, noItems⟩ := other
  have look : (pageMembers front version page beyond items).lookup name = token.map Json.str := by
    simp [pageMembers, List.lookup_append, List.lookup_cons, apart, here, noVersion,
      beq_false_of_ne noPage, beq_false_of_ne noItems]
  exact Record.optional_of_lookup look (fun _ _ => rfl) fun _ h => Json.noConfusion h

end

/-- An answer whose version fits 64 bits is read back as it was written. -/
theorem PageAnswer.ofJson?_toJson {a : PageAnswer} (version : ∀ v ∈ a.version, v ≤ maxCount) :
    ofJson? a.toJson = some a := by
  let front : Record := [("listId", .str a.listId), ("correlationToken", .str a.token)]
  let beyond := Json.given "nextPageToken" (a.next.map .str)
  have record : Json.record? fields a.toJson
      = some (pageMembers front a.version a.page beyond a.items) :=
    Json.record?_of_sublist
      (sublist_pageMembers front beyond (Json.sublist_given ..) a.page a.items) (by decide)
  obtain ⟨version', page, items⟩ := pageRead_pageMembers front beyond
    (by simp [front, beyond, List.lookup_cons]) version a.page a.items
  have next : (pageMembers front a.version a.page beyond a.items).optional "nextPageToken"
      Json.string? = some a.next := optional_pageMembers front beyond (by simp [beyond])
    (by simp [front, List.lookup_cons]) (by decide) a.page a.items
  rw [ofJson?, record]
  simp only [Option.bind_eq_bind, Option.bind_some, version', page, items, next]
  rfl

namespace TokenListing

/-- The tokens of the pages on either side of a listing, as far as there are such pages. -/
def beyond (p : TokenListing) : Record :=
  Json.given "forwardPageToken" (p.forward.map .str)
    ++ Json.given "backwardPageToken" (p.backward.map .str)

/-- The first payload of a token list describes a page, behind the name of the list. -/
theorem members_eq (p : TokenListing) :
    p.members = pageMembers [("listId", .str p.listId)] p.version p.page p.beyond p.items := by
  simp only [members, pageMembers, beyond, List.append_assoc]

/-- The first payload of a token list is written in the order of its fields. -/
theorem sublist_members (p : TokenListing) :
    (p.members.map (·.1)).Sublist (fields.map (·.name)) := by
  have links : (p.beyond.map (·.1)).Sublist ["forwardPageToken", "backwardPageToken"] := by
    rw [beyond, List.map_append]
    exact (Json.sublist_given ..).append (Json.sublist_given ..)
  rw [members_eq]
  exact sublist_pageMembers _ p.beyond links p.page p.items

/-- A listing whose version fits 64 bits is read back as it was written, whatever its tag says. -/
theorem ofJson?_cons_members {p : TokenListing} (version : ∀ v ∈ p.version, v ≤ maxCount)
    (tag : Json) : ofJson? (.obj (("type", tag) :: p.members)) = some p := by
  let front : Record := [("listId", .str p.listId)]
  have record : Json.record? fields (.obj p.members)
      = some (pageMembers front p.version p.page p.beyond p.items) := by
    rw [Json.record?_of_sublist p.sublist_members (by decide), members_eq]
  obtain ⟨version', page, items⟩ := pageRead_pageMembers front p.beyond
    (by simp [front, beyond, List.lookup_cons, List.lookup_append]) version p.page p.items
  have forward : (pageMembers front p.version p.page p.beyond p.items).optional "forwardPageToken"
      Json.string? = some p.forward := optional_pageMembers front p.beyond
    (by simp [beyond, List.lookup_append]) (by simp [front, List.lookup_cons]) (by decide) p.page
    p.items
  have backward : (pageMembers front p.version p.page p.beyond p.items).optional
      "backwardPageToken" Json.string? = some p.backward := optional_pageMembers front p.beyond
    (by simp [beyond, List.lookup_append]) (by simp [front, List.lookup_cons]) (by decide) p.page
    p.items
  rw [ofJson?, Json.record?_cons_unknown (by decide), record]
  simp only [Option.bind_eq_bind, Option.bind_some, version', page, items, forward, backward]
  rfl

end TokenListing

/-- An answer that is written is read as this answer. -/
theorem Update.parse_toJson_page {a : PageAnswer} (version : ∀ v ∈ a.version, v ≤ maxCount) :
    Update.parse .token a.toJson = .ok (.page a) := by
  have read : PageAnswer.ofJson? a.toJson = some a := PageAnswer.ofJson?_toJson version
  have plain : (a.toJson.member? "operations").isSome = false := by
    obtain ⟨listId, token, v, page, next, items⟩ := a
    cases v <;> cases next <;> rfl
  have tokened : (a.toJson.member? "correlationToken").isSome = true := rfl
  unfold Update.parse
  split
  · simp only [plain, tokened, read, Bool.false_eq_true, if_false, if_true]
    rfl
  · rename_i other
    exact absurd rfl (other _)

/-- A listing that is written is read as this listing. -/
theorem Listing.parse_toJson_token {p : TokenListing} (version : ∀ v ∈ p.version, v ≤ maxCount) :
    Listing.parse .token (Listing.token p).toJson = .ok (.token p) := by
  have read := TokenListing.ofJson?_cons_members version Kind.token.toJson
  simp only [Listing.parse, Listing.toJson, read]
  rfl

end ListSync
