import ListSync.Kind

/-!
# Rejections

Why a payload or an access is refused. `Rejection.message` is the wording; `Rejection.reason?` says
under which heading a refused payload is reported, and which refusals are dropped in silence.
-/

namespace ListSync

/-- What is wrong with a payload that is not in the expected form. -/
inductive PayloadFault where
  /-- It is no JSON object. -/
  | notAnObject
  /-- It is neither a batch of edits nor an answer to a fetch. -/
  | unclassified
  /-- It names another kind of list than the one it was given for. -/
  | kindMismatch (named expected : Kind)
  /-- It does not have the form its place asks for. -/
  | unreadable (detail : String)
deriving DecidableEq, Repr

namespace PayloadFault

/-- The wording of a fault. -/
def message : PayloadFault → String
  | notAnObject => "payload is not a JSON object"
  | unclassified => "payload has neither operations nor correlationToken"
  | kindMismatch named expected =>
    s!"payload type '{named.name}' does not match '{expected.name}'"
  | unreadable detail => detail

/-- Text that is no JSON. -/
def notJson : PayloadFault := .unreadable "not a JSON text"

/-- JSON whose fields are not those of the payload. -/
def wrongFields : PayloadFault := .unreadable "not the fields of this payload"

end PayloadFault

/-- What is wrong with a fetch policy. -/
inductive PolicyFault where
  | chunkZero
  | chunkTooLarge
  /-- The text is not a policy. -/
  | unreadable (detail : String)
deriving DecidableEq, Repr

namespace PolicyFault

/-- The wording of a fault. -/
def message : PolicyFault → String
  | chunkZero => "fetchChunkSize must be at least 1"
  | chunkTooLarge => "fetchChunkSize is too large"
  | unreadable detail => detail

end PolicyFault

/-- Why a payload or an access is refused. -/
inductive Rejection where
  | malformed (fault : PayloadFault)
  | unknownKind (name : String)
  /-- The list is of another kind. Kinds are given by name. -/
  | wrongKind (listId : ListId) (expected actual : String)
  | unregistered (listId : ListId)
  /-- The version is not the next one. -/
  | staleVersion (listId : ListId) (expected actual : Version)
  /-- No such request is outstanding for the list. -/
  | unknownCorrelation (token : String)
  | inconsistentRange (listId : ListId) (detail : String)
  | inconsistentPage (listId : ListId) (expected actual : String)
  | finished
  | invalidPolicy (fault : PolicyFault)
deriving DecidableEq, Repr

namespace Rejection

/-- The wording of a rejection. -/
def message : Rejection → String
  | malformed fault => s!"malformed payload: {fault.message}"
  | unknownKind name => s!"unknown data source type: {name}"
  | wrongKind listId expected actual =>
    s!"list '{listId}' is a {actual} list, not a {expected} list"
  | unregistered listId => s!"list not registered: {listId}"
  | staleVersion listId expected actual =>
    s!"stale version for list '{listId}': expected {expected}, got {actual}"
  | unknownCorrelation token => s!"unknown correlation token: {token}"
  | inconsistentRange listId detail => s!"inconsistent range for list '{listId}': {detail}"
  | inconsistentPage listId expected actual =>
    s!"inconsistent page token for list '{listId}': expected {expected}, got {actual}"
  | finished => "session has finished"
  | invalidPolicy fault => s!"invalid configuration: {fault.message}"

end Rejection

/-! ## Reading or refusing -/

/-- The kind with a name, or a rejection. -/
def Kind.parse (name : String) : Except Rejection Kind :=
  match Kind.ofName? name with
  | some kind => .ok kind
  | none => .error (.unknownKind name)

/-- What was read, or a rejection of a payload whose fields do not fit. -/
def fitting {α : Type} : Option α → Except Rejection α
  | some a => .ok a
  | none => .error (.malformed .wrongFields)

/-! ## Headings and reports -/

/-- The heading under which a problem with a payload is reported. -/
inductive Reason where
  | invalidPayload
  | invalidKind
  | invalidListId
  | duplicateVersion
  | missingVersion
  | indexOutOfRange
  | inconsistentRange
  | inconsistentPage
deriving DecidableEq, Repr, Inhabited

namespace Reason

/-- The name of a heading in reports. -/
def name : Reason → String
  | invalidPayload => "INVALID_PAYLOAD"
  | invalidKind => "INVALID_DATA_SOURCE_TYPE"
  | invalidListId => "INVALID_LIST_ID"
  | duplicateVersion => "DUPLICATE_LIST_VERSION"
  | missingVersion => "MISSING_LIST_VERSION"
  | indexOutOfRange => "LIST_INDEX_OUT_OF_RANGE"
  | inconsistentRange => "INCONSISTENT_RANGE"
  | inconsistentPage => "INCONSISTENT_PAGE_TOKEN"

/-- All headings. -/
def all : List Reason :=
  [invalidPayload, invalidKind, invalidListId, duplicateVersion, missingVersion, indexOutOfRange,
    inconsistentRange, inconsistentPage]

/-- The heading with a given name. -/
def ofName? (name : String) : Option Reason := all.find? (·.name = name)

theorem ofName?_name (r : Reason) : ofName? r.name = some r := by cases r <;> rfl

/-- A heading as JSON. -/
def toJson (r : Reason) : Json := .str r.name

/-- A heading from JSON. -/
def ofJson? (j : Json) : Option Reason := j.name?.bind ofName?

end Reason

/-- The heading of a rejection. A late answer, and anything that comes after the session has
finished, is dropped in silence. -/
def Rejection.reason? : Rejection → Option Reason
  | malformed _ => some .invalidPayload
  | unknownKind _ | wrongKind .. => some .invalidKind
  | unregistered _ => some .invalidListId
  | staleVersion _ expected actual =>
    some (if actual < expected then .duplicateVersion else .missingVersion)
  | inconsistentRange .. => some .inconsistentRange
  | inconsistentPage .. => some .inconsistentPage
  | unknownCorrelation _ | finished | invalidPolicy _ => none

/-- A problem with a payload, recorded for the host. -/
structure Report where
  reason : Reason
  /-- The list the payload named, empty if it named none. -/
  listId : ListId
  version : Option Version
  message : String
deriving DecidableEq, Repr, Inhabited

namespace Report

/-- A report as JSON. -/
def toJson (r : Report) : Json :=
  .obj ([("reason", r.reason.toJson), ("listId", .str r.listId)]
    ++ Json.given "listVersion" (r.version.map Json.ofNat)
    ++ [("message", .str r.message)])

/-- The fields of a report. -/
def fields : List Field :=
  [.fixed "reason", .fixed "listId", .droppable "listVersion", .fixed "message"]

/-- What the text of a report is read for. -/
def schema : Schema := .record fields

/-- A report from JSON. -/
def ofJson? (j : Json) : Option Report := do
  let r ← j.record? fields
  return {
    reason := ← r.required "reason" Reason.ofJson?
    listId := ← r.required "listId" Json.string?
    version := ← r.optional "listVersion" Json.count?
    message := ← r.required "message" Json.string? }

end Report

end ListSync
