import ListSync.Json.Reader
import ListSync.Rejection

/-!
# Fetch policies

How much a session fetches at once, and how early. A policy that has not been checked may hold any
counts; `Policy.fault?` says what is wrong with it.
-/

namespace ListSync

/-- How much a session fetches at once, and how early. -/
structure Policy where
  /-- The least number of items to ask for where the bounds allow it. -/
  chunkSize : Nat := 10
  /-- How close to an edge an access must be to fetch what lies beyond. For zero nothing is fetched
  ahead. -/
  prefetchDistance : Nat := 0
deriving DecidableEq, Repr, Inhabited

namespace Policy

/-- What is wrong with a policy: a chunk holds at least one item, and its size is an index. -/
def fault? (p : Policy) : Option PolicyFault :=
  if p.chunkSize = 0 then some .chunkZero
  else if Index.greatest < p.chunkSize then some .chunkTooLarge
  else none

/-- A policy without faults. -/
def validate (p : Policy) : Except Rejection Policy :=
  match p.fault? with
  | some fault => .error (.invalidPolicy fault)
  | none => .ok p

/-- A policy as JSON. -/
def toJson (p : Policy) : Json :=
  .obj [("fetchChunkSize", Json.ofNat p.chunkSize),
    ("prefetchDistance", Json.ofNat p.prefetchDistance)]

/-- The fields of a policy. -/
def fields : List Field := [.droppable "fetchChunkSize", .droppable "prefetchDistance"]

/-- What the text of a policy is read for. -/
def schema : Schema := .record fields

/-- A policy from JSON; what is not given has its default. -/
def ofJson? (j : Json) : Option Policy := do
  let r ← j.record? fields
  let default : Policy := {}
  return {
    chunkSize := ← r.withDefault "fetchChunkSize" Json.count? default.chunkSize
    prefetchDistance :=
      ← r.withDefault "prefetchDistance" Json.count? default.prefetchDistance }

/-- Read and check the text of a policy. -/
def read (text : String) : Except Rejection Policy :=
  match schema.decode? ofJson? text with
  | some p => p.validate
  | none => .error (.invalidPolicy (.unreadable "not the fields of a policy"))

/-! ## What a valid policy promises -/

theorem fault?_eq_none_iff (p : Policy) :
    p.fault? = none ↔ 0 < p.chunkSize ∧ (p.chunkSize : Int) ≤ Index.greatest := by
  unfold fault?
  split
  · simp; omega
  · split
    · simp; omega
    · simp; omega

end Policy

end ListSync
