import ListSync.Json.Writer
import ListSync.Session.Access
import ListSync.Session.Update

/-!
# Calls from a host that knows only text

A host may drive a session through calls whose arguments are texts and whose answers are texts of
JSON: `{"ok": …}` or `{"error": …}`. An argument can be missing or not be text at all, and so can
the session. Nothing a host passes makes a call fail in another way.
-/

namespace ListSync.Host

/-- What a host passes in place of a text. -/
inductive Argument where
  | missing
  /-- Bytes that are no text. -/
  | unreadable
  | text (text : String)
deriving DecidableEq, Repr

/-- The text of an argument. -/
def Argument.text? : Argument → Option String
  | text t => some t
  | _ => none

/-- Why a call is refused. -/
inductive CallFault where
  | noSession
  | noKind
  | noPayload
  /-- The payload is no JSON text. -/
  | notJson (detail : String)
  | noListId
  | noDirection
  | rejected (why : Rejection)
deriving DecidableEq, Repr

namespace CallFault

/-- The wording of a fault. -/
def message : CallFault → String
  | noSession => "null session pointer"
  | noKind => "invalid source type"
  | noPayload => "invalid payload string"
  | notJson detail => s!"parse error: {detail}"
  | noListId => "invalid list id"
  | noDirection => "direction must be 'forward' or 'backward'"
  | rejected why => why.message

end CallFault

/-- The text that answers a call. -/
def answer : Except CallFault Json → String
  | .ok j => (Json.obj [("ok", j)]).render
  | .error fault => (Json.obj [("error", .str fault.message)]).render

/-- What was given, or a fault. -/
def given {α : Type} (fault : CallFault) : Option α → Except CallFault α
  | some a => .ok a
  | none => .error fault

/-- Carry out a call that changes a session, if there is one. -/
def call (session : Option Session) (f : Session → Except CallFault (Session × Json)) :
    Option Session × String :=
  match session with
  | none => (none, answer (.error .noSession))
  | some s => match f s with
    | .error fault => (some s, answer (.error fault))
    | .ok (next, j) => (some next, answer (.ok j))

/-- Like `call`, for a move of the session that can be rejected. -/
def callMove {α : Type} (session : Option Session)
    (move : Session → Except CallFault (Session × Except Rejection α)) (encode : α → Json) :
    Option Session × String :=
  match session with
  | none => (none, answer (.error .noSession))
  | some s => match move s with
    | .error fault => (some s, answer (.error fault))
    | .ok (next, .error why) => (some next, answer (.error (.rejected why)))
    | .ok (next, .ok a) => (some next, answer (.ok (encode a)))

/-! ## Sessions -/

/-- Open a session. There is none for a policy that is not valid. -/
def newSession (policy : Argument) : Option Session :=
  match policy with
  | .missing => some {}
  | .unreadable => none
  | .text t => match Policy.read t with
    | .ok policy => some { policy }
    | .error _ => none

/-- Finish a session. -/
def finish (session : Option Session) : Option Session := session.map Session.finish

/-- The version of these calls. -/
def version : String := "0.1.0"

/-! ## Payloads -/

/-- Register a list. The answer is its handle. -/
def register (session : Option Session) (kind payload : Argument) : Option Session × String :=
  callMove session (fun s => do
    let kind ← given .noKind kind.text?
    let text ← given .noPayload payload.text?
    let j ← given (.notJson "not a JSON text") (Json.parse? text)
    return s.register kind j) Json.ofNat

/-- Apply an update: 1 if it was accepted, 0 if it was rejected, -1 if an argument is no text. Text
that is no JSON is a rejected payload and not a bad argument. -/
def update (session : Option Session) (kind payload : Argument) : Option Session × Int :=
  match session, kind.text?, payload.text? with
  | some s, some kind, some text =>
    match s.apply kind ((Json.parse? text).getD (.str text)) with
    | (next, .ok _) => (some next, 1)
    | (next, .error _) => (some next, 0)
  | _, _, _ => (session, -1)

/-! ## Accesses -/

/-- An index is wanted. The answer is the tokens of the requests that were issued. -/
def ensureIndex (session : Option Session) (listId : Argument) (i : Int) :
    Option Session × String :=
  callMove session (fun s => do
    let listId ← given .noListId listId.text?
    return s.ensureIndex listId i) fun tokens => .arr (tokens.map .str)

/-- Ask for the next page in a direction. The answer is the token of the request, or null. -/
def fetchPage (session : Option Session) (listId direction : Argument) : Option Session × String :=
  callMove session (fun s => do
    let listId ← given .noListId listId.text?
    let direction ← given .noDirection (direction.text?.bind Direction.ofName?)
    return s.fetchPage listId direction) Json.ofString?

/-- The loaded items of a list. -/
def items (session : Option Session) (listId : Argument) : String :=
  answer (do
    let s ← given .noSession session
    let listId ← given .noListId listId.text?
    let list ← given (.rejected (.unregistered listId)) (s.find? listId)
    return .arr list.items)

/-! ## What waits for the host -/

/-- Take what waits in a queue. -/
def take {α : Type} (session : Option Session) (drain : Session → Session × List α)
    (encode : α → Json) : Option Session × String :=
  call session fun s =>
    let (next, waiting) := drain s
    .ok (next, .arr (waiting.map encode))

/-- Take the requests that wait to be sent. -/
def takeRequests (session : Option Session) : Option Session × String :=
  take session Session.takeRequests FetchRequest.toJson

/-- Take the changes that wait for the display. -/
def takeChanges (session : Option Session) : Option Session × String :=
  take session Session.takeChanges ListChange.toJson

/-- Take the reports that wait for the host. -/
def takeReports (session : Option Session) : Option Session × String :=
  take session Session.takeReports Report.toJson

end ListSync.Host
