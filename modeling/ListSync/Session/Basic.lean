import ListSync.Edit.Apply
import ListSync.Fetch.Plan
import ListSync.Fetch.Request
import ListSync.Ledger
import ListSync.Registry
import ListSync.Update

/-!
# Sessions

A session holds all dynamic lists of one document and what keeps them in step with their producers:
the versions, the outstanding requests, and queues for the host. Requests that are issued go to the
outbox or, while somebody listens, straight to the listener; changes and reports wait until the host
takes them; updates from elsewhere wait in the inbox.

Every move of a session is a function from the session before it to the session after it, together
with the answer.
-/

namespace ListSync

/-- All dynamic lists of one document. -/
structure Session where
  policy : Policy := {}
  lists : Registry := {}
  versions : Ledger := {}
  requests : RequestTable := {}
  /-- Whether a listener takes requests as they are issued. -/
  listening : Bool := false
  /-- The requests that listeners have taken. -/
  heard : List FetchRequest := []
  /-- The requests issued while nobody listened. -/
  outbox : List FetchRequest := []
  /-- The changes that wait for the display. -/
  changes : List ListChange := []
  /-- The problems that wait for the host. -/
  reports : List Report := []
  /-- The updates that wait to be applied. -/
  inbox : List QueuedUpdate := []
  finished : Bool := false

namespace Session

instance : Inhabited Session := ⟨{}⟩

/-- A session with a policy, if that is valid. -/
def create (policy : Policy) : Except Rejection Session :=
  policy.validate.map fun policy => { policy }

/-! ## What a session knows -/

/-- The list with a name. -/
def find? (s : Session) (listId : ListId) : Option LoadedList := s.lists.find? listId

/-- The list with a name, if it is of the given kind. -/
def findKind (s : Session) (listId : ListId) (kind : Kind) : Except Rejection LoadedList :=
  match s.find? listId with
  | none => .error (.unregistered listId)
  | some l => (l.expect kind).map fun _ => l

/-- Whether a list waits for anything. After the session has finished, every list is abandoned. -/
def state? (s : Session) (listId : ListId) : Option FetchState :=
  if s.finished then some .abandoned
  else (s.find? listId).map fun l => if l.isFetching then .pending else .idle

/-- The last accepted version of a list. -/
def version? (s : Session) (listId : ListId) : Option Version := s.versions.current? listId

/-- The outstanding requests for a list, oldest first. -/
def outstanding (s : Session) (listId : ListId) : List Request := s.requests.outstanding listId

/-! ## What waits for the host -/

/-- Take the requests that wait to be sent. -/
def takeRequests (s : Session) : Session × List FetchRequest := ({ s with outbox := [] }, s.outbox)

/-- Take the requests that listeners have received. -/
def takeHeard (s : Session) : Session × List FetchRequest := ({ s with heard := [] }, s.heard)

/-- Take the changes that wait for the display. -/
def takeChanges (s : Session) : Session × List ListChange := ({ s with changes := [] }, s.changes)

/-- Take the reports that wait for the host. -/
def takeReports (s : Session) : Session × List Report := ({ s with reports := [] }, s.reports)

/-- Hand requests to a listener from now on. -/
def listen (s : Session) : Session := { s with listening := true }

/-- Keep requests in the outbox from now on. -/
def unlisten (s : Session) : Session := { s with listening := false }

/-! ## Reports and changes -/

/-- The list and the version that a payload names, as far as it does. -/
def identify (payload : Json) : ListId × Option Version :=
  (((payload.member? "listId").bind Json.string?).getD "",
    (payload.member? "listVersion").bind Json.count?)

/-- Record the rejection of a payload, unless it is one that is dropped in silence. -/
def reject (s : Session) (payload : Json) (why : Rejection) : Session :=
  match why.reason? with
  | none => s
  | some reason =>
    let (listId, version) := identify payload
    { s with reports := s.reports ++ [{ reason, listId, version, message := why.message }] }

/-- Tell the display what changed, if anything did. -/
def publish (s : Session) (listId : ListId) (diff : Diff) : Session :=
  if diff.isEmpty then s else { s with changes := s.changes ++ [⟨listId, diff⟩] }

/-! ## The end of a session -/

/-- Give up all lists and outstanding requests. What waits for the host stays, apart from requests
that were not taken. -/
def finish (s : Session) : Session :=
  if s.finished then s
  else
    { s with
      lists := s.lists.clear
      versions := {}
      requests := s.requests.abandonAll
      outbox := []
      inbox := []
      finished := true }

end Session

end ListSync
