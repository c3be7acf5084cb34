import ListSync.Proofs.Producer.Service
import ListSync.Proofs.Session.Wire

/-!
# Messages of a client are read as they are meant

A client writes its messages as tagged objects (`ClientMessage.toJson`). A service reads each as the
message that it is, whether its members arrive as they were written or sorted by name
(`ofJson?_of_arrives`), so that a text with such a value is answered as this message
(`process_of_arrives`). Numbers must fit 64 bits; of a request that a session has issued nothing has
to be assumed (`process_asked`).

The tag and the fields of a tagged object are found in either order (`Json.tagged_of_arrives`). What
a field is read as then depends on its own value only.
-/

namespace ListSync

/-! ## Fields of objects that arrive -/

/-- A record has the fields of another one, each as it was written or sorted by name. -/
def Record.Arrives (r arrived : Record) : Prop :=
  ∀ name, Option.Rel Json.Arrives (r.lookup name) (arrived.lookup name)

namespace Json

variable {j : Json}

/-- A value in which nothing can be sorted arrives as it was written. -/
theorem eq_of_arrives {v : Json} (flat : v.settle = v) (arrives : v.Arrives j) : j = v := by
  cases arrives with
  | written => rfl
  | sorted => exact flat

/-- The tag of an object is found, and so are its fields. -/
theorem tagged_of_arrives {tag name : String} {members : Record} (fields : List Field)
    (names : (members.map (·.1)).Sublist (fields.map (·.name)))
    (distinct : (fields.map (·.name)).Nodup) (apart : tag ∉ fields.map (·.name))
    (arrives : (obj ((tag, str name) :: members)).Arrives j) :
    ∃ body r, j.tagged? tag = some (name, body) ∧ body.record? fields = some r
      ∧ members.Arrives r := by
  have tagged : (obj ((tag, str name) :: members)).tagged? tag = some (name, obj members) := by
    refine tagged?_cons fun m h same => apart ?_
    rw [← same]
    exact names.subset (List.mem_map_of_mem h)
  have record := record?_of_sublist names distinct
  -- sorting moves the tag, but its value and those of the fields are found by name
  cases arrives with
  | written =>
    refine ⟨_, members, tagged, record, fun field => ?_⟩
    cases members.lookup field with
    | none => exact .none
    | some v => exact .some .written
  | sorted =>
    obtain ⟨plain, record', same⟩ := settles_record? record
    refine ⟨_, plain, settles_tagged? tagged, record', fun field => ?_⟩
    rw [same field]
    cases members.lookup field with
    | none => exact .none
    | some v => exact .some .sorted

end Json

namespace Record

variable {r arrived : Record} {name : String} {α : Type} {decode : Json → Option α}

/-- A field that must be given is read as what its own value is read as. -/
theorem Arrives.required (arrives : r.Arrives arrived) {v : Json} {a : α}
    (given : r.lookup name = some v) (read : ∀ v', v.Arrives v' → decode v' = some a) :
    arrived.required name decode = some a := by
  have field := arrives name
  rw [given] at field
  rw [Record.required]
  generalize arrived.lookup name = found at field ⊢
  cases field with
  | some same => exact read _ same

/-- A field that may be left out is read as it was written, if it is there and nothing can be sorted
in it. -/
theorem Arrives.optional (arrives : r.Arrives arrived) {encode : α → Json} {o : Option α}
    (given : r.lookup name = o.map encode) (flat : ∀ a, (encode a).settle = encode a)
    (read : ∀ a ∈ o, decode (encode a) = some a) (present : ∀ a, encode a ≠ .null) :
    arrived.optional name decode = some o := by
  refine optional_of_lookup ?_ read present
  have field := arrives name
  rw [given] at field
  generalize arrived.lookup name = found at field ⊢
  cases o with
  | none =>
    cases field
    rfl
  | some a =>
    cases field with
    | some same => rw [Json.eq_of_arrives (flat a) same, Option.map_some]

/-- A string that must be given is found. -/
theorem Arrives.required_string (arrives : r.Arrives arrived) {text : String}
    (given : r.lookup name = some (.str text)) :
    arrived.required name Json.string? = some text := by
  refine arrives.required given fun v same => ?_
  rw [Json.eq_of_arrives rfl same]
  rfl

/-- A string that may be left out is found if it is there. -/
theorem Arrives.optional_string (arrives : r.Arrives arrived) {o : Option String}
    (given : r.lookup name = o.map .str) : arrived.optional name Json.string? = some o :=
  arrives.optional given (fun _ => rfl) (fun _ _ => rfl) nofun

/-- A count that may be left out is found if it is there. -/
theorem Arrives.optional_count (arrives : r.Arrives arrived) {o : Option Nat}
    (fits : ∀ n ∈ o, n ≤ maxCount) (given : r.lookup name = o.map Json.ofNat) :
    arrived.optional name Json.count? = some o :=
  arrives.optional given (fun _ => rfl) (fun n h => Json.count?_ofNat (fits n h))
    Json.ofNat_ne_null

/-- An index that may be left out is found if it is there. -/
theorem Arrives.optional_index (arrives : r.Arrives arrived) {o : Option Int}
    (fits : ∀ i ∈ o, Index.InRange i) (given : r.lookup name = o.map Json.ofInt) :
    arrived.optional name Json.index? = some o :=
  arrives.optional given (fun _ => rfl) (fun i h => Json.index?_ofInt (fits i h))
    Json.ofInt_ne_null

end Record

namespace Producer

namespace ClientMessage

/-! ## Messages as they are written -/

/-- The members of a message behind its tag. -/
def members : ClientMessage → Record
  | load listId q requestId =>
    [("list_id", .str listId)] ++ Json.given "start_index" (q.start.map Json.ofInt)
      ++ Json.given "count" (q.count.map Json.ofNat) ++ Json.given "page" (q.page.map Json.ofNat)
      ++ Json.given "request_id" (requestId.map .str)
  | subscribe listId requestId | unsubscribe listId requestId =>
    [("list_id", .str listId)] ++ Json.given "request_id" (requestId.map .str)
  | fetch request requestId =>
    [("request", request.toJson)] ++ Json.given "request_id" (requestId.map .str)
  | ping => []

/-- A message as JSON. -/
def toJson (m : ClientMessage) : Json := .obj (("type", .str m.name) :: m.members)

/-- The numbers of a message fit 64 bits. -/
def Proper : ClientMessage → Prop
  | load _ q _ => (∀ i ∈ q.start, Index.InRange i) ∧ (∀ n ∈ q.count, n ≤ maxCount)
    ∧ ∀ n ∈ q.page, n ≤ maxCount
  | fetch request _ => request.Proper
  | subscribe .. | unsubscribe .. | ping => True

variable {m : ClientMessage} {j : Json}

/-! ## Messages as they are read -/

/-- The fields of a message about a subscription are found. -/
theorem subscription?_of_arrives (make : ListId → Option String → ClientMessage) {listId : ListId}
    {requestId : Option String} {tag : String}
    (arrives : (Json.obj (("type", .str tag) :: (subscribe listId requestId).members)).Arrives j) :
    ∃ body, j.tagged? "type" = some (tag, body)
      ∧ subscription? make body = some (make listId requestId) := by
  have names : ((subscribe listId requestId).members.map (·.1)).Sublist
      ["list_id", "request_id"] :=
    (List.Sublist.refl ["list_id"]).append (Json.sublist_given ..)
  obtain ⟨body, r, tagged, record, given⟩ := Json.tagged_of_arrives
    [.fixed "list_id", .droppable "request_id"] names (by decide) (by decide) arrives
  refine ⟨body, tagged, ?_⟩
  have list : r.required "list_id" Json.string? = some listId := given.required_string rfl
  have request : r.optional "request_id" Json.string? = some requestId :=
    given.optional_string (by simp [members, List.lookup_cons])
  simp only [subscription?, record, list, request, Option.bind_eq_bind, Option.bind_some,
    Option.pure_def]

/-- A message that a client has written is read as this message. -/
theorem ofJson?_of_arrives (proper : m.Proper) (arrives : m.toJson.Arrives j) :
    ofJson? j = some m := by
  cases m with
  | load listId q requestId =>
    obtain ⟨startFits, countFits, pageFits⟩ := proper
    have names : ((load listId q requestId).members.map (·.1)).Sublist
        ["list_id", "start_index", "count", "page", "request_id"] := by
      simp only [members, List.map_append]
      exact ((((List.Sublist.refl ["list_id"]).append (Json.sublist_given ..)).append
        (Json.sublist_given ..)).append (Json.sublist_given ..)).append (Json.sublist_given ..)
    obtain ⟨body, r, tagged, record, given⟩ := Json.tagged_of_arrives
      [.fixed "list_id", .droppable "start_index", .droppable "count", .droppable "page",
        .droppable "request_id"] names (by decide) (by decide) arrives
    have list : r.required "list_id" Json.string? = some listId := given.required_string rfl
    have start : r.optional "start_index" Json.index? = some q.start :=
      given.optional_index startFits (by simp [members, List.lookup_append, List.lookup_cons])
    have count : r.optional "count" Json.count? = some q.count :=
      given.optional_count countFits (by simp [members, List.lookup_append, List.lookup_cons])
    have page : r.optional "page" Json.count? = some q.page :=
      given.optional_count pageFits (by simp [members, List.lookup_append, List.lookup_cons])
    have request : r.optional "request_id" Json.string? = some requestId :=
      given.optional_string (by simp [members, List.lookup_append, List.lookup_cons])
    simp only [ofJson?, tagged, name, Option.bind_eq_bind, Option.bind_some, record, list, start,
      count, page, request, Option.pure_def]
  | subscribe listId requestId =>
    obtain ⟨body, tagged, read⟩ := subscription?_of_arrives subscribe arrives
    simp only [ofJson?, tagged, name, Option.bind_eq_bind, Option.bind_some, read]
  | unsubscribe listId requestId =>
    obtain ⟨body, tagged, read⟩ := subscription?_of_arrives unsubscribe arrives
    simp only [ofJson?, tagged, name, Option.bind_eq_bind, Option.bind_some, read]
  | fetch request requestId =>
    have names : ((fetch request requestId).members.map (·.1)).Sublist ["request", "request_id"] :=
      (List.Sublist.refl ["request"]).append (Json.sublist_given ..)
    obtain ⟨body, r, tagged, record, given⟩ := Json.tagged_of_arrives
      [.fixed "request", .droppable "request_id"] names (by decide) (by decide) arrives
    have asked : r.required "request" FetchRequest.ofJson? = some request :=
      given.required rfl fun _ => FetchRequest.Proper.ofJson?_of_arrives proper
    have own : r.optional "request_id" Json.string? = some requestId :=
      given.optional_string (by simp [members, List.lookup_cons])
    simp only [ofJson?, tagged, name, Option.bind_eq_bind, Option.bind_some, record, asked, own,
      Option.pure_def]
  | ping =>
    have names : (ping.members.map (·.1)).Sublist [] := .refl []
    obtain ⟨body, r, tagged, record, -⟩ := Json.tagged_of_arrives [] names (by decide) (by decide)
      arrives
    simp only [ofJson?, tagged, name, Option.bind_eq_bind, Option.bind_some, record,
      Option.pure_def]

/-! ## Texts -/

/-- A text with a message in it that a client has written is read as this message. -/
theorem read?_of_arrives {text : String} (proper : m.Proper) (value : Json.read? text = some j)
    (arrives : m.toJson.Arrives j) : read? text = some m := by
  rw [read?, value, Option.bind_some, ofJson?_of_arrives proper arrives]

example : read? "\x7b\"type\": \"ping\"\x7d" = some .ping := by decide +kernel

example : read? ("\x7b\"request_id\":\"r\",\"type\":\"load\","
      ++ "\"list_id\":\"l\",\"count\":2\x7d")
    = some (.load "l" { count := some 2 } (some "r")) := by decide +kernel

example : read? ("\x7b\"type\":\"fetch\",\"request\":\x7b\"correlationToken\":\"101\","
      ++ "\"listId\":\"l\",\"startIndex\":2,\"count\":10\x7d\x7d")
    = some (.fetch (.range "101" "l" 2 10) none) := by decide +kernel

end ClientMessage

namespace Service

/-- A text with a message in it that a client has written is answered as this message. -/
theorem process_of_arrives {m : ClientMessage} {j : Json} {text : String} (proper : m.Proper)
    (value : Json.read? text = some j) (arrives : m.toJson.Arrives j) (s : Service)
    (id : ConnectionId) : s.process id text = s.answer id m :=
  process_of_read (ClientMessage.read?_of_arrives proper value arrives) s id

/-- What a session has asked for is answered as a fetch of just this. -/
theorem process_asked {client : Session} (reachable : client.Reachable) {request : FetchRequest}
    (asked : request ∈ client.asked) {requestId : Option String} {j : Json} {text : String}
    (value : Json.read? text = some j)
    (arrives : (ClientMessage.fetch request requestId).toJson.Arrives j) (s : Service)
    (id : ConnectionId) : s.process id text = s.answer id (.fetch request requestId) :=
  process_of_arrives (m := .fetch request requestId) (Session.proper_of_asked reachable asked) value
    arrives s id

end Service

end Producer

end ListSync
