import ListSync.Json.Writer
import ListSync.Producer.MediaType
import ListSync.Producer.Service
import ListSync.Producer.Uri

/-!
# The producer over HTTP

Lists are loaded and fetched by `GET` and `POST` under `/lists`, and changed by `POST`. The target
decides first, then the method; whether a caller may change a list is checked before its request is
looked at. An answer that only has a status has no body.
-/

namespace ListSync.Producer.Http

/-- A request. -/
structure Request where
  method : String
  target : String
  headers : List (String × String)
  body : String
deriving DecidableEq, Repr, Inhabited

/-- What an answer holds. -/
inductive Body where
  | json (value : Json)
  | text (text : String)
  | empty
deriving DecidableEq, Repr

/-- The text that is sent. -/
def Body.render : Body → String
  | json value => value.render
  | text t => t
  | empty => ""

/-- An answer. -/
structure Response where
  status : Nat
  body : Body
deriving DecidableEq, Repr

namespace Response

/-- A successful answer. -/
def ok (j : Json) : Response := ⟨200, .json j⟩

/-- An answer without a body. -/
def bare (status : Nat) : Response := ⟨status, .empty⟩

/-- The answer to a request that fails. -/
def failure (f : Failure) : Response :=
  let fields := match f with
    | .refused .noFile | .refused .badFile =>
      [("error", Json.str "Repository error"), ("details", .str f.message)]
    | _ => [("error", .str f.message)]
  ⟨f.status, .json (.obj fields)⟩

/-- The answer to a request that may fail. -/
def ofResult {α : Type} (encode : α → Json) : Except Failure α → Response
  | .ok a => ok (encode a)
  | .error f => failure f

end Response

/-! ## Targets -/

/-- What can be asked for. -/
inductive Route where
  | root
  | health
  | summaries
  | initial (listId : List Char)
  | fetch (listId : List Char)
  | edits (listId : List Char)
  /-- The place where connections are opened. -/
  | socket
deriving DecidableEq, Repr

/-- What a path asks for. The name of a list is still escaped. It may be empty where something
follows it. -/
def route? (path : List Char) : Option Route := do
  match ← Uri.segments path with
  | [""] => some .root
  | ["health"] => some .health
  | ["lists"] => some .summaries
  | ["lists", name] => if name.isEmpty then none else some (.initial name.toList)
  | ["lists", name, "fetch"] => some (.fetch name.toList)
  | ["lists", name, "operations"] => some (.edits name.toList)
  | ["ws"] => some .socket
  | _ => none

/-- Whether a route is asked by `POST`. The others are asked by `GET`. -/
def Route.isPost : Route → Bool
  | fetch _ | edits _ => true
  | _ => false

/-- Whether a route takes a method. What can be asked by `GET` can be asked by `HEAD`. -/
def Route.takes (r : Route) (method : String) : Bool :=
  if r.isPost then method = "POST" else method = "GET" || method = "HEAD"

/-! ## Headers and bodies -/

/-- The value of a header, whose name is in lower case. -/
def Request.header? (r : Request) (name : String) : Option String :=
  (r.headers.find? fun h => h.1.toLower = name).map (·.2)

/-- The value of a header that holds visible characters only. -/
def Request.visibleHeader? (r : Request) (name : String) : Option String :=
  (r.header? name).filter fun text =>
    text.all fun c => c = '\t' || (0x20 ≤ c.toNat && c.toNat < 0x7F)

/-- The most bytes that a body may have. -/
def maxBodyBytes : Nat := 2 * 1024 * 1024

/-- The body of a request as typed JSON, or the answer to a body that is none. -/
def Request.json {α : Type} (r : Request) (schema : Schema) (decode : Json → Option α) :
    Except Response α :=
  if !((r.visibleHeader? "content-type").any MediaType.isJson) then .error (.bare 415)
  else if r.body.utf8ByteSize > maxBodyBytes then .error (.bare 413)
  else match schema.decode decode r.body with
    | .ok a => .ok a
    | .error .broken => .error (.bare 400)
    | .error .unfit => .error (.bare 422)

/-- The name of a list in a path, or the answer to one that is no text. -/
def listName (escaped : List Char) : Except Response ListId :=
  match Uri.text? (Uri.unescape escaped) with
  | some name => .ok name
  | none => .error (.bare 400)

/-! ## Answers -/

/-- The version that the producer reports. -/
def version : String := "0.1.0"

/-- How the producer is. -/
def health (s : Service) : Json :=
  .obj [("status", .str "ok"), ("version", .str version),
    ("lists", Json.ofNat s.catalog.size), ("connections", Json.ofNat s.hub.size)]

/-- Load a list. -/
def initial (s : Service) (escaped query : List Char) : Except Response Response := do
  let listId ← listName escaped
  match Uri.query? query with
  | none => return .bare 400
  | some q => return .ofResult Listing.toJson (s.load listId q)

/-- Answer a fetch. -/
def fetch (s : Service) (escaped : List Char) (r : Request) : Except Response Response := do
  let listId ← listName escaped
  let request ← r.json .whole FetchRequest.ofJson?
  return .ofResult Answer.toJson (s.fetch (some listId) request)

/-- The list and the edits of a request for a change, if the caller may ask for one. -/
def readChange (s : Service) (escaped : List Char) (r : Request) :
    Except Response (ListId × List (Edit Item)) := do
  match authorize (r.visibleHeader? "authorization") s.secret with
  | .error f => .error (.failure f)
  | .ok _ =>
    let listId ← listName escaped
    let edits ← r.json (.record changeFields) readEdits?
    return (listId, edits.map (·.map Json.settle))

/-- Change a list. -/
def change (s : Service) (escaped : List Char) (r : Request) : Service × Response :=
  match readChange s escaped r with
  | .error response => (s, response)
  | .ok (listId, edits) =>
    let (next, result) := s.change listId edits
    (next, .ofResult Changed.toJson result)

/-- Whether one run of characters occurs in another. -/
def occursIn (part : List Char) : List Char → Bool
  | [] => part.isEmpty
  | c :: rest => part.isPrefixOf (c :: rest) || occursIn part rest

/-- Whether a request asks for a connection in all its headers. -/
def Request.asksForSocket (r : Request) : Bool :=
  let header (name : String) : Option String := (r.header? name).map String.toLower
  (header "connection").any (fun text => occursIn "upgrade".toList text.toList)
    && header "upgrade" = some "websocket" && (header "sec-websocket-key").isSome
    && header "sec-websocket-version" = some "13"

/-- The answer where connections are opened. A request by itself carries none that could be
upgraded. -/
def openSocket (r : Request) : Response :=
  if r.method ≠ "GET" then .bare 405
  else if r.asksForSocket then .bare 426
  else .bare 400

/-- What came of a request, whether or not it was read to its end. -/
def either : Except Response Response → Response
  | .ok response => response
  | .error response => response

/-- Answer a request for a route that takes its method. -/
def serve (s : Service) (route : Route) (query : List Char) (r : Request) : Service × Response :=
  match route with
  | .root => (s, ⟨200, .text "Data Source Server"⟩)
  | .health => (s, .ok (health s))
  | .summaries => (s, .ok (.arr (s.catalog.summaries.map Summary.toJson)))
  | .initial escaped => (s, either (initial s escaped query))
  | .fetch escaped => (s, either (fetch s escaped r))
  | .edits escaped => change s escaped r
  | .socket => (s, openSocket r)

/-- The answer to the same request by `HEAD`. -/
def Response.withoutBody (r : Response) : Response := { r with body := .empty }

/-- Answer a request. Any target may be asked for its options. -/
def handle (s : Service) (r : Request) : Service × Response :=
  if r.method = "OPTIONS" then (s, .bare 200)
  else
    let (path, query) := Uri.split ((Uri.fromPath? r.target.toList).getD [])
    match route? path with
    | none => (s, .bare 404)
    | some route =>
      if !route.takes r.method then (s, .bare 405)
      else
        let (next, response) := serve s route query r
        (next, if r.method = "HEAD" then response.withoutBody else response)

end ListSync.Producer.Http
