import ListSync.Session.Basic

/-!
# Registering and updating lists

`Session.register` takes a list with its first items, `Session.apply` a batch of edits or an
answer to a fetch. A payload that is refused changes no list and no version. It is reported, unless
it is a late answer, and of a fetch whose answer is inconsistent the request is settled all the
same.
-/

namespace ListSync

/-- What an accepted update did. -/
structure Applied where
  listId : ListId
  diff : Diff
  /-- The edits of a batch that were skipped or trimmed. -/
  warnings : List Warning
deriving DecidableEq, Repr, Inhabited

namespace Applied

/-- What was done, as JSON. -/
def toJson (a : Applied) : Json :=
  .obj [("listId", .str a.listId), ("diff", a.diff.toJson),
    ("warnings", .arr (a.warnings.map Warning.toJson))]

/-- The fields of what was done. -/
def fields : List Field :=
  [.fixed "listId", .fixed "diff", .nested "warnings" (.list Warning.schema)]

/-- What the text of what was done is read for. -/
def schema : Schema := .record fields

/-- What was done, from JSON. -/
def ofJson? (j : Json) : Option Applied := do
  let r ← j.record? fields
  return {
    listId := ← r.required "listId" Json.string?
    diff := ← r.required "diff" Diff.ofJson?
    warnings := ← r.required "warnings" (Json.list? Warning.ofJson?) }

end Applied

namespace Session

/-! ## Registration -/

/-- Read the first payload of a list: the list and its version. -/
def readList (kindName : String) (payload : Json) :
    Except Rejection (LoadedList × Option Version) := do
  let kind ← Kind.parse kindName
  let parsed ← Listing.parse kind payload
  let list ← LoadedList.ofPayload parsed
  return (list, parsed.version)

/-- Take a list in, by a way to register it. In place of a list of the same name it comes as a
replacement: the requests of the earlier one are abandoned, and its version is forgotten. -/
def installBy (insert : Registry → LoadedList → Registry × Handle × Option LoadedList) (s : Session)
    (list : LoadedList) (version : Option Version) : Session × Handle :=
  let (lists, handle, replaced) := insert s.lists list
  let next :=
    { s with
      lists
      requests := s.requests.abandon list.id
      outbox := s.outbox.filter (·.listId ≠ list.id)
      versions := match version with
        | some v => s.versions.assign list.id v
        | none => s.versions.forget list.id }
  (if replaced.isSome then next.publish list.id (.replace list.items.length) else next, handle)

/-- Take a list in. -/
def install (s : Session) (list : LoadedList) (version : Option Version) : Session × Handle :=
  s.installBy Registry.insert list version

/-- Register a list from its first payload, by a way to register lists. -/
def registerBy (insert : Registry → LoadedList → Registry × Handle × Option LoadedList)
    (s : Session) (kindName : String) (payload : Json) : Session × Except Rejection Handle :=
  if s.finished then (s, .error .finished)
  else match readList kindName payload with
    | .error why => (s.reject payload why, .error why)
    | .ok (list, version) =>
      let (next, handle) := s.installBy insert list version
      (next, .ok handle)

/-- Register a list from its first payload. -/
def register (s : Session) (kindName : String) (payload : Json) :
    Session × Except Rejection Handle :=
  s.registerBy Registry.insert kindName payload

/-! ## Batches -/

/-- Refuse a version that is not the next one. -/
def checkVersion (s : Session) (listId : ListId) (v : Version) : Except Rejection Unit :=
  if s.versions.wouldAccept listId v then .ok ()
  else .error (.staleVersion listId ((s.versions.expected? listId).getD v) v)

/-- Refuse a version that is not the next one, if there is a version at all. -/
def checkVersion? (s : Session) (listId : ListId) : Option Version → Except Rejection Unit
  | some v => s.checkVersion listId v
  | none => .ok ()

/-- Note the version of an accepted payload, if it carries one. -/
def acceptVersion (s : Session) (listId : ListId) : Option Version → Session
  | some v => { s with versions := (s.versions.tryAccept listId v).1 }
  | none => s

/-- The reports on the edits of a batch that were skipped or trimmed. -/
def warningReports (batch : Batch) (warnings : List Warning) : List Report :=
  warnings.map fun w => {
    reason := .indexOutOfRange
    listId := batch.listId
    version := some batch.version
    message := s!"{w.edit} (operation {w.place}): {w.message}" }

/-- Apply a batch of edits to a list. Ranges that are being fetched behind the loaded items
move along with them. -/
def applyBatch (s : Session) (list : LoadedList) (batch : Batch) :
    Session × Except Rejection Applied :=
  match s.checkVersion batch.listId batch.version with
  | .error why => (s, .error why)
  | .ok () =>
    let (items, outcome) := applyEdits list.items batch.edits
    -- the bounds are not looked at again, and what waits in the outbox is not moved along
    let (window, requests) := match list.window with
      | .index w =>
        (Window.index (w.adjust outcome.delta),
          s.requests.shift batch.listId w.stop outcome.delta)
      | .token w => (Window.token w, s.requests)
    let next :=
      { s with
        lists := s.lists.modify batch.listId fun l => { l with items, window }
        requests
        reports := s.reports ++ warningReports batch outcome.warnings }
    ((next.acceptVersion batch.listId batch.version).publish batch.listId outcome.diff,
      .ok ⟨batch.listId, outcome.diff, outcome.warnings⟩)

/-! ## Answers -/

/-- The outstanding request that an answer for a list names. -/
def findRequest (s : Session) (listId : ListId) (token : CorrelationToken) :
    Except Rejection Request :=
  match s.requests.find? token with
  | some request =>
    if request.listId = listId then .ok request else .error (.unknownCorrelation token)
  | none => .error (.unknownCorrelation token)

/-- The range that an answer was asked for, and a version that can be accepted. -/
def checkRange (s : Session) (answer : RangeAnswer) : Except Rejection Span := do
  let request ← s.findRequest answer.listId answer.token
  match request.span? with
  | none => .error (.unknownCorrelation answer.token)
  | some asked =>
    s.checkVersion? answer.listId answer.version
    return asked

/-- Put fetched items to an index list. Items that are loaded already stay as they are. -/
def applyRange (s : Session) (list : LoadedList) (answer : RangeAnswer) :
    Session × Except Rejection Applied :=
  match s.checkRange answer with
  | .error why => (s, .error why)
  | .ok asked =>
    let settled := { s with requests := s.requests.settle answer.token }
    match list.window with
    | .token _ => (settled, .error (.unknownCorrelation answer.token))
    | .index w =>
      -- the range is not in flight any more even where the answer does not fit
      let cleared := w.clear asked
      match cleared.absorb asked answer.start answer.items.length answer.minimum answer.maximum with
      | .error fault =>
        ({ settled with
            lists := s.lists.modify answer.listId fun l => { l with window := .index cleared } },
          .error (.inconsistentRange answer.listId fault.message))
      | .ok (plan, window) =>
        let (items, diff) := extend list.items (answer.items.take plan.front.stop)
          (answer.items.drop plan.back.start)
        let next :=
          { settled with
            lists := s.lists.modify answer.listId fun l =>
              { l with items, window := .index window } }
        ((next.acceptVersion answer.listId answer.version).publish answer.listId diff,
          .ok ⟨answer.listId, diff, []⟩)

/-- The page that an answer was asked for, and a version that can be accepted. -/
def checkPage (s : Session) (answer : PageAnswer) : Except Rejection (String × Direction) := do
  let request ← s.findRequest answer.listId answer.token
  match request.target with
  | .range .. => .error (.unknownCorrelation answer.token)
  | .page asked direction =>
    s.checkVersion? answer.listId answer.version
    return (asked, direction)

/-- Put a fetched page to a token list. -/
def applyPage (s : Session) (list : LoadedList) (answer : PageAnswer) :
    Session × Except Rejection Applied :=
  match s.checkPage answer with
  | .error why => (s, .error why)
  | .ok (asked, direction) =>
    let settled := { s with requests := s.requests.settle answer.token }
    match list.window with
    | .index _ => (settled, .error (.unknownCorrelation answer.token))
    | .token w =>
      let cleared := w.clear asked
      if answer.page ≠ asked then
        ({ settled with
            lists := s.lists.modify answer.listId fun l => { l with window := .token cleared } },
          .error (.inconsistentPage answer.listId asked answer.page))
      else
        let (items, diff) := match direction with
          | .forward => extend list.items [] answer.items
          | .backward => extend list.items answer.items []
        let window := Window.token (cleared.advance direction answer.next)
        let next :=
          { settled with
            lists := s.lists.modify answer.listId fun l => { l with items, window } }
        ((next.acceptVersion answer.listId answer.version).publish answer.listId diff,
          .ok ⟨answer.listId, diff, []⟩)

/-! ## Updates -/

/-- Read an update for a kind of list that is given by name. -/
def readUpdate (kindName : String) (payload : Json) : Except Rejection (Kind × Update) := do
  let kind ← Kind.parse kindName
  return (kind, ← Update.parse kind payload)

/-- Apply an update to the list it names, if that is of the given kind. -/
def dispatch (s : Session) (kind : Kind) (update : Update) : Session × Except Rejection Applied :=
  match s.findKind update.listId kind with
  | .error why => (s, .error why)
  | .ok list => match update with
    | .batch b => s.applyBatch list b
    | .range a => s.applyRange list a
    | .page a => s.applyPage list a

/-- Apply a batch of edits or an answer to a fetch. -/
def apply (s : Session) (kindName : String) (payload : Json) : Session × Except Rejection Applied :=
  if s.finished then (s, .error .finished)
  else match readUpdate kindName payload with
    | .error why => (s.reject payload why, .error why)
    | .ok (kind, update) => match s.dispatch kind update with
      | (next, .ok applied) => (next, .ok applied)
      | (next, .error why) => (next.reject payload why, .error why)

/-! ## Updates from elsewhere -/

/-- Let an update wait to be applied. -/
def send (s : Session) (kindName : String) (payload : Json) : Session × Except Rejection Unit :=
  if s.finished then (s, .error .finished)
  else ({ s with inbox := s.inbox ++ [⟨kindName, payload⟩] }, .ok ())

/-- Let an update that comes as text wait to be applied. -/
def sendText (s : Session) (kindName : String) (text : String) : Session × Except Rejection Unit :=
  match Json.parse? text with
  | none => (s, .error (.malformed .notJson))
  | some payload => s.send kindName payload

/-- Apply one waiting update, and count it if it is accepted. -/
def applyQueued (state : Session × Nat) (update : QueuedUpdate) : Session × Nat :=
  match state.1.apply update.kindName update.payload with
  | (next, .ok _) => (next, state.2 + 1)
  | (next, .error _) => (next, state.2)

/-- Apply all waiting updates in the order in which they came, and say how many were accepted. -/
def process (s : Session) : Session × Nat :=
  s.inbox.foldl applyQueued ({ s with inbox := [] }, 0)

end Session

end ListSync
