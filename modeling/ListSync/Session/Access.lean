import ListSync.Session.Basic

/-!
# Accessing items

The host says which item it wants. `Session.ensureIndex` and `Session.ensurePosition` issue the
requests that this calls for, `Session.fetchPage` asks for one page. A request is noted as
outstanding, and its range or page as in flight, before the next access is looked at.
-/

namespace ListSync.Session

/-! ## Issuing requests -/

/-- Issue a request under a fresh token. -/
def issue (s : Session) (listId : ListId) (target : Target) : Session × CorrelationToken :=
  let (requests, token) := s.requests.issue
  let request : Request := { token, listId, target }
  let next := { s with requests := requests.add request }
  (if s.listening then { next with heard := s.heard ++ [request.toFetch] }
    else { next with outbox := s.outbox ++ [request.toFetch] }, token)

/-- Change the window of a list. -/
def modifyWindow (s : Session) (listId : ListId) (window : Window) : Session :=
  { s with lists := s.lists.modify listId fun l => { l with window } }

/-- Ask for a range of an index list. -/
def fetchRange (s : Session) (listId : ListId) (range : Span) : Session × CorrelationToken :=
  let marked := match (s.find? listId).map (·.window) with
    | some (.index w) => s.modifyWindow listId (.index (w.mark range))
    | _ => s
  marked.issue listId (.range range.start range.length)

/-- Ask for several ranges of an index list, one after the other. -/
def fetchRanges (s : Session) (listId : ListId) : List Span → Session × List CorrelationToken
  | [] => (s, [])
  | range :: ranges =>
    let (next, token) := s.fetchRange listId range
    let (last, tokens) := next.fetchRanges listId ranges
    (last, token :: tokens)

/-! ## Accesses -/

/-- An index of an index list is wanted. -/
def ensureIndex (s : Session) (listId : ListId) (i : Int) :
    Session × Except Rejection (List CorrelationToken) :=
  if s.finished then (s, .error .finished)
  else match s.findKind listId .index with
    | .error why => (s, .error why)
    | .ok list => match list.window with
      | .token _ => (s, .ok [])
      | .index w =>
        let (next, tokens) := s.fetchRanges listId (w.plan s.policy i)
        (next, .ok tokens)

/-- Ask for the next page of a token list in a direction, unless there is none or it is being
fetched. -/
def fetchPage (s : Session) (listId : ListId) (d : Direction) :
    Session × Except Rejection (Option CorrelationToken) :=
  if s.finished then (s, .error .finished)
  else match s.findKind listId .token with
    | .error why => (s, .error why)
    | .ok list => match list.window with
      | .index _ => (s, .ok none)
      | .token w => match w.needsFetch d with
        | none => (s, .ok none)
        | some page =>
          let marked := s.modifyWindow listId (.token (w.mark page))
          let (next, token) := marked.issue listId (.page page d)
          (next, .ok (some token))

/-- Ask for pages in several directions, one after the other. -/
def fetchPages (s : Session) (listId : ListId) :
    List Direction → Session × Except Rejection (List CorrelationToken)
  | [] => (s, .ok [])
  | d :: ds => match s.fetchPage listId d with
    | (next, .error why) => (next, .error why)
    | (next, .ok token) => match next.fetchPages listId ds with
      | (last, .error why) => (last, .error why)
      | (last, .ok tokens) => (last, .ok (token.toList ++ tokens))

/-- The loaded item at a position is wanted. The position is read as an index. -/
def ensurePosition (s : Session) (listId : ListId) (position : Nat) :
    Session × Except Rejection (List CorrelationToken) :=
  if s.finished then (s, .error .finished)
  else match s.find? listId with
    | none => (s, .error (.unregistered listId))
    | some list => match list.window with
      | .index w =>
        -- there may be no loaded item at the position
        s.ensureIndex listId (Index.add w.start (Index.wrapCount position))
      | .token _ =>
        s.fetchPages listId (s.policy.pagesAhead list.items.length position)

end ListSync.Session
