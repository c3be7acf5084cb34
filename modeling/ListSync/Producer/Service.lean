import ListSync.Producer.Hub
import ListSync.Producer.Catalog

/-!
# What a producer does for its clients

A service joins the catalog with the connections. `Service.process` answers the messages of a
connection and keeps track of the range it holds; `Service.change` changes a list and pushes the
batch to its subscribers.
-/

namespace ListSync.Producer

/-- Why a request to a service fails. -/
inductive Failure where
  | refused (why : Refusal)
  /-- The request is for another list than the one it was sent to. -/
  | otherList (named expected : ListId)
  | noEdits
  | unauthorized
deriving DecidableEq, Repr

namespace Failure

/-- The wording of a failure. -/
def message : Failure → String
  | refused why => why.message
  | otherList named expected =>
    s!"Invalid request: request is for list '{named}', not '{expected}'"
  | noEdits => "Invalid request: no operations"
  | unauthorized => "Unauthorized"

/-- The status that a failure has in HTTP. -/
def status : Failure → Nat
  | refused (.notFound _) => 404
  | refused (.duplicate _) => 409
  | refused .noFile | refused .badFile => 500
  | refused _ => 400
  | otherList .. | noEdits => 400
  | unauthorized => 401

end Failure

/-! ## Who may change lists -/

/-- Who a caller is, as far as it matters. -/
inductive Caller where
  /-- The caller has shown the secret. -/
  | trusted
  /-- No secret is asked for. -/
  | anonymous
deriving DecidableEq, Repr

/-- The rest of a text behind the given start, if it starts so. -/
def behind? : List Char → List Char → Option (List Char)
  | [], rest => some rest
  | c :: start, d :: rest => if c = d then behind? start rest else none
  | _ :: _, [] => none

/-- Check the authorization of a caller. Where there is a secret, it must be shown as a bearer
token. -/
def authorize (header secret : Option String) : Except Failure Caller :=
  match secret with
  | none => .ok .anonymous
  | some secret =>
    match header.bind fun text => behind? "Bearer ".toList text.toList with
    | some token => if token = secret.toList then .ok .trusted else .error .unauthorized
    | none => .error .unauthorized

/-! ## The service -/

/-- A producer at work. -/
structure Service where
  catalog : Catalog
  /-- What callers must show to change lists. -/
  secret : Option String := none
  hub : Hub := {}
deriving Inhabited

/-- The outcome of a change to a list. -/
structure Changed where
  listId : ListId
  /-- The version that the change has led to. -/
  version : Version
  warnings : List Warning
  /-- The number of subscribers that the batch was sent to. -/
  notified : Nat
deriving DecidableEq, Repr

/-- The outcome of a change as JSON. -/
def Changed.toJson (o : Changed) : Json :=
  .obj [("listId", .str o.listId), ("listVersion", Json.ofNat o.version),
    ("warnings", .arr (o.warnings.map Warning.toJson)), ("notified", Json.ofNat o.notified)]

/-- The fields of a request for a change. -/
def changeFields : List Field := [.nested "operations" (.list Edit.schema)]

/-- The edits that a request for a change asks for. -/
def readEdits? (j : Json) : Option (List (Edit Item)) := do
  let r ← j.record? changeFields
  r.required "operations" (Json.list? Edit.ofJson?)

/-- What a catalog gives, or a failure. -/
def served {α : Type} : Except Refusal α → Except Failure α
  | .ok a => .ok a
  | .error why => .error (.refused why)

namespace Service

/-! ## Loading and fetching -/

/-- The payload with which a client registers a list. -/
def load (s : Service) (listId : ListId) (q : Query) : Except Failure Listing :=
  served (s.catalog.initial listId q)

/-- The answer to a fetch. It must be for the given list, if there is one. -/
def fetch (s : Service) (listId : Option ListId) (request : FetchRequest) :
    Except Failure Answer :=
  match listId with
  | some expected =>
    if request.listId = expected then served (s.catalog.fetch request)
    else .error (.otherList request.listId expected)
  | none => served (s.catalog.fetch request)

/-- The range of the whole list that a payload covers. -/
def loadedRange (s : Service) : Listing → Option (Int × Nat)
  | .index p => some (p.start, p.items.length)
  | .token p => (s.catalog.pageStart p.listId p.page).toOption.map (·, p.items.length)

/-- The range of the whole list that an answer covers. -/
def fetchedRange (s : Service) : Answer → Option (Int × Nat)
  | .range a => some (a.start, a.items.length)
  | .page a => (s.catalog.pageStart a.listId a.page).toOption.map (·, a.items.length)

/-- Change the hub of a service. -/
def withHub (s : Service) (f : Hub → Hub) : Service := { s with hub := f s.hub }

/-! ## Messages of a connection -/

/-- Answer a message of a connection. -/
def answer (s : Service) (id : ConnectionId) : ClientMessage → Service × ServerMessage
  | .load listId q requestId =>
    match s.load listId q with
    | .error failure => (s, .error failure.message requestId)
    | .ok payload =>
      (match s.loadedRange payload with
        | some (start, count) => s.withHub (·.track id listId start count)
        | none => s, .loaded payload requestId)
  | .subscribe listId requestId =>
    match s.catalog.summary listId with
    | .error why => (s, .error why.message requestId)
    | .ok summary =>
      (s.withHub fun h => (h.subscribe id listId).1,
        .subscribed listId summary.version requestId)
  | .unsubscribe listId requestId =>
    (s.withHub fun h => (h.unsubscribe id listId).1, .unsubscribed listId requestId)
  | .fetch request requestId =>
    match s.fetch none request with
    | .error failure => (s, .error failure.message requestId)
    | .ok answer =>
      (match s.fetchedRange answer with
        | some (start, count) => s.withHub (·.extend id request.listId start count)
        | none => s, .fetched answer requestId)
  | .ping => (s, .pong)

/-- Answer the text of a message of a connection. -/
def process (s : Service) (id : ConnectionId) (text : String) : Service × ServerMessage :=
  match ClientMessage.read? text with
  | none => (s, .error "Invalid message format: not a message" none)
  | some message => s.answer id message

/-! ## Changing lists -/

/-- Apply edits to a list and push the batch to its subscribers. Positions in the edits
are positions in the whole list. -/
def change (s : Service) (listId : ListId) (edits : List (Edit Item)) :
    Service × Except Failure Changed :=
  if edits.isEmpty then (s, .error .noEdits)
  else match s.catalog.find listId with
    | .error why => (s, .error (.refused why))
    | .ok list => match s.catalog.apply listId edits with
      | .error why => (s, .error (.refused why))
      | .ok (catalog, batch, warnings) =>
        -- trimmed edits are passed on as skipped ones too
        let (hub, notified) := s.hub.publish list.kind batch (warnings.map (·.place))
        ({ s with catalog, hub }, .ok ⟨listId, batch.version, warnings, notified⟩)

end Service

end ListSync.Producer
