import ListSync.Decimal
import ListSync.Window.Index

/-!
# Fetch requests and their correlation

A request names what is missing and carries a fresh token. The answer repeats the token, and the
first answer takes the request out of the table, so that later ones find nothing. `Request` is what
the table keeps, `FetchRequest` what the producer is asked.
-/

namespace ListSync

/-- Names a request, so that its answer can be recognised. -/
abbrev CorrelationToken := String

/-- What is asked for. -/
inductive Target where
  /-- A range of an index list. -/
  | range (start : Int) (count : Nat)
  /-- The page next to the loaded ones in a direction. -/
  | page (token : String) (direction : Direction)
deriving DecidableEq, Repr, Inhabited

namespace Target

/-- A target as JSON, tagged by the kind of list. -/
def toJson : Target → Json
  | range start count =>
    .obj [("kind", .str "index"), ("startIndex", Json.ofInt start), ("count", Json.ofNat count)]
  | page token direction =>
    .obj [("kind", .str "token"), ("pageToken", .str token), ("direction", direction.toJson)]

/-- A target from JSON. -/
def ofJson? (j : Json) : Option Target := do
  let (tag, body) ← j.tagged? "kind"
  match tag with
  | "index" =>
    let r ← body.record? [.fixed "startIndex", .fixed "count"]
    return range (← r.required "startIndex" Json.index?) (← r.required "count" Json.count?)
  | "token" =>
    let r ← body.record? [.fixed "pageToken", .fixed "direction"]
    return page (← r.required "pageToken" Json.string?)
      (← r.required "direction" Direction.ofInnerJson?)
  | _ => none

end Target

/-- A request in the form a producer is asked. -/
inductive FetchRequest where
  | range (token : CorrelationToken) (listId : ListId) (start : Int) (count : Nat)
  | page (token : CorrelationToken) (listId : ListId) (wanted : String)
deriving DecidableEq, Repr, Inhabited

namespace FetchRequest

/-- The correlation token of a request. -/
def token : FetchRequest → CorrelationToken
  | range token _ _ _ => token
  | page token _ _ => token

/-- The list a request is about. -/
def listId : FetchRequest → ListId
  | range _ listId _ _ => listId
  | page _ listId _ => listId

/-- The kind of list a request is for. -/
def kind : FetchRequest → Kind
  | range .. => .index
  | page .. => .token

/-- A request as JSON. -/
def toJson : FetchRequest → Json
  | range token listId start count =>
    .obj [("correlationToken", .str token), ("listId", .str listId),
      ("startIndex", Json.ofInt start), ("count", Json.ofNat count)]
  | page token listId wanted =>
    .obj [("correlationToken", .str token), ("listId", .str listId), ("pageToken", .str wanted)]

/-- A request for a range from JSON. -/
def rangeOfJson? (j : Json) : Option FetchRequest := do
  let r ← j.namedRecord? [.fixed "correlationToken", .fixed "listId", .fixed "startIndex",
    .fixed "count"]
  return range (← r.required "correlationToken" Json.string?) (← r.required "listId" Json.string?)
    (← r.required "startIndex" Json.index?) (← r.required "count" Json.count?)

/-- A request for a page from JSON. -/
def pageOfJson? (j : Json) : Option FetchRequest := do
  let r ← j.namedRecord? [.fixed "correlationToken", .fixed "listId", .fixed "pageToken"]
  return page (← r.required "correlationToken" Json.string?) (← r.required "listId" Json.string?)
    (← r.required "pageToken" Json.string?)

/-- A request from JSON. What can be read as a request for a range is one. The fields must be given
by name, because the kind of request shows in them alone. -/
def ofJson? (j : Json) : Option FetchRequest := rangeOfJson? j <|> pageOfJson? j

end FetchRequest

/-- An outstanding request. -/
structure Request where
  token : CorrelationToken
  listId : ListId
  target : Target
deriving DecidableEq, Repr, Inhabited

namespace Request

/-- The range a request asks for, if it asks for one. -/
def span? (r : Request) : Option Span :=
  match r.target with
  | .range start count => some ⟨start, Index.add start (Index.wrapCount count)⟩
  | .page .. => none

/-- The form in which a producer is asked. -/
def toFetch (r : Request) : FetchRequest :=
  match r.target with
  | .range start count => .range r.token r.listId start count
  | .page wanted _ => .page r.token r.listId wanted

/-- The number a token stands for, zero if it is no number. -/
def number (r : Request) : Nat := (Decimal.count? maxCount r.token.toList).getD 0

/-- Move a request for a range that starts at `start` or later. -/
def shift (r : Request) (start : Int) (delta : Int) : Request :=
  match r.target with
  | .range s count =>
    if start ≤ s then { r with target := .range (Index.add s delta) count } else r
  | .page .. => r

/-- A request as JSON. -/
def toJson (r : Request) : Json :=
  .obj [("correlationToken", .str r.token), ("listId", .str r.listId),
    ("params", r.target.toJson)]

/-- The fields of a request. -/
def fields : List Field := [.fixed "correlationToken", .fixed "listId", .fixed "params"]

/-- What the text of a request is read for. -/
def schema : Schema := .record fields

/-- A request from JSON. -/
def ofJson? (j : Json) : Option Request := do
  let r ← j.record? fields
  return {
    token := ← r.required "correlationToken" Json.string?
    listId := ← r.required "listId" Json.string?
    target := ← r.required "params" Target.ofJson? }

end Request

/-- The outstanding requests, oldest first, and the number of the last token. -/
structure RequestTable where
  counter : Nat := 100
  pending : List Request := []
deriving DecidableEq, Repr, Inhabited

namespace RequestTable

/-- A token that was not handed out before. The first one is `101`. -/
def issue (t : RequestTable) : RequestTable × CorrelationToken :=
  ({ t with counter := t.counter + 1 }, String.ofList (Decimal.render (t.counter + 1)))

/-- Note a request as outstanding under its token. -/
def add (t : RequestTable) (r : Request) : RequestTable :=
  { t with pending := t.pending.filter (·.token ≠ r.token) ++ [r] }

/-- The outstanding request with a token. -/
def find? (t : RequestTable) (token : CorrelationToken) : Option Request :=
  t.pending.find? (·.token = token)

/-- Take out the request with a token. -/
def settle (t : RequestTable) (token : CorrelationToken) : RequestTable :=
  { t with pending := t.pending.filter (·.token ≠ token) }

/-- Take out all requests for a list. -/
def abandon (t : RequestTable) (listId : ListId) : RequestTable :=
  { t with pending := t.pending.filter (·.listId ≠ listId) }

/-- Take out all requests. -/
def abandonAll (t : RequestTable) : RequestTable := { t with pending := [] }

/-- Move the requests for ranges of a list from `start` on, after the items before them changed in
number. -/
def shift (t : RequestTable) (listId : ListId) (start delta : Int) : RequestTable :=
  { t with pending := t.pending.map fun r =>
      if r.listId = listId then r.shift start delta else r }

/-- The outstanding requests for a list, by the number of their token. -/
def outstanding (t : RequestTable) (listId : ListId) : List Request :=
  (t.pending.filter (·.listId = listId)).mergeSort fun a b => a.number ≤ b.number

/-! ## Look-ups after a change -/

theorem find?_settle (t : RequestTable) (token other : CorrelationToken) :
    (t.settle token).find? other = if other = token then none else t.find? other := by
  simp only [find?, settle]
  induction t.pending with
  | nil => simp
  | cons r rs ih => by_cases h : r.token = token <;> by_cases h' : r.token = other <;> grind

/-- A request that is added is found under its token, in place of any earlier one. -/
theorem find?_add (t : RequestTable) (r : Request) (other : CorrelationToken) :
    (t.add r).find? other = if other = r.token then some r else t.find? other := by
  have rest := find?_settle t r.token other
  simp only [find?, settle, add, List.find?_append] at *
  rw [rest]
  by_cases h : other = r.token
  · simp [h]
  · have : ¬r.token = other := fun e => h e.symm
    simp [h, this]

theorem mem_abandon (t : RequestTable) (listId : ListId) (r : Request) :
    r ∈ (t.abandon listId).pending ↔ r ∈ t.pending ∧ r.listId ≠ listId := by
  simp [abandon]

end RequestTable

end ListSync
