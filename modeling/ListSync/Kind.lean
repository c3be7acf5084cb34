import ListSync.Json.Record

/-!
# Kinds of lists and directions of paging
-/

namespace ListSync

/-- Lists have names. -/
abbrev ListId := String

/-- A list version is a count that grows by one with each batch of changes. -/
abbrev Version := Nat

/-- How the parts of a list are addressed. -/
inductive Kind where
  /-- By absolute index. -/
  | index
  /-- By page token. -/
  | token
deriving DecidableEq, Repr, Inhabited

namespace Kind

/-- The name of a kind in payloads and messages. -/
def name : Kind → String
  | index => "dynamicIndexList"
  | token => "dynamicTokenList"

/-- The kind with a given name. -/
def ofName? (name : String) : Option Kind :=
  if name = index.name then some index
  else if name = token.name then some token
  else none

@[simp]
theorem ofName?_name (k : Kind) : ofName? k.name = some k := by cases k <;> rfl

/-- A kind as JSON. -/
def toJson (k : Kind) : Json := .str k.name

/-- A kind from JSON. -/
def ofJson? (j : Json) : Option Kind := j.name?.bind ofName?

end Kind

/-- The way a page lies from the loaded part of a token list. -/
inductive Direction where
  | forward
  | backward
deriving DecidableEq, Repr, Inhabited

namespace Direction

/-- The name of a direction. -/
def name : Direction → String
  | forward => "forward"
  | backward => "backward"

/-- The direction with a given name. -/
def ofName? (name : String) : Option Direction :=
  if name = forward.name then some forward
  else if name = backward.name then some backward
  else none

@[simp]
theorem ofName?_name (d : Direction) : ofName? d.name = some d := by cases d <;> rfl

/-- A direction as JSON. -/
def toJson (d : Direction) : Json := .str d.name

/-- A direction from JSON. -/
def ofJson? (j : Json) : Option Direction := j.name?.bind ofName?

/-- A direction from a field of a tagged record. -/
def ofInnerJson? (j : Json) : Option Direction := j.innerName?.bind ofName?

end Direction

end ListSync
