import ListSync.Producer.FullList

/-!
# Messages between clients and a producer

Messages are JSON with a tag for their type. The payloads inside are passed on by clients as they
are, together with the kind of list they are for.
-/

namespace ListSync.Producer

/-! ## From a client -/

/-- What a client asks. -/
inductive ClientMessage where
  /-- Load a list. -/
  | load (listId : ListId) (query : Query) (requestId : Option String)
  /-- Receive the batches of a list from now on. -/
  | subscribe (listId : ListId) (requestId : Option String)
  /-- Receive them no longer. -/
  | unsubscribe (listId : ListId) (requestId : Option String)
  /-- Fetch what a session has asked for. -/
  | fetch (request : FetchRequest) (requestId : Option String)
  | ping
deriving DecidableEq, Repr

namespace ClientMessage

/-- The client's own name for a message. -/
def requestId : ClientMessage → Option String
  | load _ _ r | subscribe _ r | unsubscribe _ r | fetch _ r => r
  | ping => none

/-- The list a message names. -/
def listId? : ClientMessage → Option ListId
  | load l _ _ | subscribe l _ | unsubscribe l _ => some l
  | fetch request _ => some request.listId
  | ping => none

/-- Where a list should be loaded. -/
def query? : ClientMessage → Option Query
  | load _ q _ => some q
  | _ => none

/-- The type of a message. -/
def name : ClientMessage → String
  | load .. => "load"
  | subscribe .. => "subscribe"
  | unsubscribe .. => "unsubscribe"
  | fetch .. => "fetch"
  | ping => "ping"

/-- A message about a subscription, from its fields. -/
def subscription? (make : ListId → Option String → ClientMessage) (j : Json) :
    Option ClientMessage := do
  let r ← j.record? [.fixed "list_id", .droppable "request_id"]
  return make (← r.required "list_id" Json.string?) (← r.optional "request_id" Json.string?)

/-- A message from JSON. -/
def ofJson? (j : Json) : Option ClientMessage := do
  let (tag, body) ← j.tagged? "type"
  match tag with
  | "load" =>
    let r ← body.record? [.fixed "list_id", .droppable "start_index", .droppable "count",
      .droppable "page", .droppable "request_id"]
    let listId ← r.required "list_id" Json.string?
    let query : Query := {
      start := ← r.optional "start_index" Json.index?
      count := ← r.optional "count" Json.count?
      page := ← r.optional "page" Json.count? }
    return load listId query (← r.optional "request_id" Json.string?)
  | "subscribe" => subscription? subscribe body
  | "unsubscribe" => subscription? unsubscribe body
  | "fetch" =>
    let r ← body.record? [.fixed "request", .droppable "request_id"]
    return fetch (← r.required "request" FetchRequest.ofJson?)
      (← r.optional "request_id" Json.string?)
  | "ping" =>
    let _ ← body.record? []
    return ping
  | _ => none

/-- Read a message from text. -/
def read? (text : String) : Option ClientMessage := (Json.read? text).bind ofJson?

end ClientMessage

/-! ## From the producer -/

/-- What a producer tells a client. -/
inductive ServerMessage where
  | loaded (payload : Listing) (requestId : Option String)
  /-- Batches will be sent from the given version on. -/
  | subscribed (listId : ListId) (version : Version) (requestId : Option String)
  | unsubscribed (listId : ListId) (requestId : Option String)
  | fetched (answer : Answer) (requestId : Option String)
  /-- A batch for a list of the given kind. -/
  | update (kind : Kind) (batch : Batch)
  | pong
  | error (message : String) (requestId : Option String)
deriving DecidableEq, Repr, Inhabited

namespace ServerMessage

/-- The client's own name for the message that is answered. -/
def requestId : ServerMessage → Option String
  | loaded _ r | subscribed _ _ r | unsubscribed _ r | fetched _ r | error _ r => r
  | update .. | pong => none

/-- A message as JSON. -/
def toJson (m : ServerMessage) : Json :=
  let fields := match m with
    | loaded payload _ =>
      [("type", Json.str "loaded"), ("source_type", payload.kind.toJson),
        ("payload", payload.toJson)]
    | subscribed listId version _ =>
      [("type", .str "subscribed"), ("list_id", .str listId), ("list_version", Json.ofNat version)]
    | unsubscribed listId _ => [("type", .str "unsubscribed"), ("list_id", .str listId)]
    | fetched answer _ =>
      [("type", .str "fetch_response"), ("source_type", answer.kind.toJson),
        ("payload", answer.toJson)]
    | update kind batch =>
      [("type", .str "update"), ("source_type", kind.toJson), ("payload", batch.toJson)]
    | pong => [("type", .str "pong")]
    | error message _ => [("type", .str "error"), ("message", .str message)]
  .obj (fields ++ Json.given "request_id" (m.requestId.map .str))

end ServerMessage

end ListSync.Producer
