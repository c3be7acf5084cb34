import ListSync.Double

/-!
# JSON values

The value type that payloads, items and answers are made of. An object is the list of its members
as they were given, so one name may occur twice. `Json.settle` is the plain value of such a tree:
members sorted by name, and of several members with one name only the last.

A number is an integer of 64 bits or a double. No arithmetic is done on doubles.
-/

namespace ListSync

/-- A JSON number: an integer that fits 64 bits, or a double. -/
inductive Number where
  | int (value : Int)
  | real (value : Double)
deriving DecidableEq, Repr, Inhabited

/-- A JSON value. Objects keep their members in the order given. -/
inductive Json where
  | null
  | bool (value : Bool)
  | num (value : Number)
  | str (value : String)
  | arr (items : List Json)
  | obj (members : List (String × Json))
deriving Repr, Inhabited

/-- List items are opaque JSON values. -/
abbrev Item := Json

namespace Json

/-! ## Equality -/

mutual

/-- Equality of values is decided by walking both trees. -/
def decEq : (a b : Json) → Decidable (a = b)
  | .null, .null => isTrue rfl
  | .bool a, .bool b => decidable_of_iff (a = b) (by simp)
  | .num a, .num b => decidable_of_iff (a = b) (by simp)
  | .str a, .str b => decidable_of_iff (a = b) (by simp)
  | .arr xs, .arr ys =>
    match decEqItems xs ys with
    | isTrue h => isTrue (by rw [h])
    | isFalse h => isFalse (by simpa using h)
  | .obj ms, .obj ns =>
    match decEqMembers ms ns with
    | isTrue h => isTrue (by rw [h])
    | isFalse h => isFalse (by simpa using h)
  | .null, .bool _ | .null, .num _ | .null, .str _ | .null, .arr _ | .null, .obj _
  | .bool _, .null | .bool _, .num _ | .bool _, .str _ | .bool _, .arr _ | .bool _, .obj _
  | .num _, .null | .num _, .bool _ | .num _, .str _ | .num _, .arr _ | .num _, .obj _
  | .str _, .null | .str _, .bool _ | .str _, .num _ | .str _, .arr _ | .str _, .obj _
  | .arr _, .null | .arr _, .bool _ | .arr _, .num _ | .arr _, .str _ | .arr _, .obj _
  | .obj _, .null | .obj _, .bool _ | .obj _, .num _ | .obj _, .str _ | .obj _, .arr _ =>
    isFalse (by simp)

/-- Equality of arrays, item by item. -/
def decEqItems : (xs ys : List Json) → Decidable (xs = ys)
  | [], [] => isTrue rfl
  | [], _ :: _ => isFalse (by simp)
  | _ :: _, [] => isFalse (by simp)
  | x :: xs, y :: ys =>
    match decEq x y, decEqItems xs ys with
    | isTrue h, isTrue hs => isTrue (by rw [h, hs])
    | isFalse h, _ => isFalse (by simp [h])
    | _, isFalse hs => isFalse (by simp [hs])

/-- Equality of objects, member by member in the order given. -/
def decEqMembers : (ms ns : List (String × Json)) → Decidable (ms = ns)
  | [], [] => isTrue rfl
  | [], _ :: _ => isFalse (by simp)
  | _ :: _, [] => isFalse (by simp)
  | (m, v) :: ms, (n, w) :: ns =>
    if h : m = n then
      match decEq v w, decEqMembers ms ns with
      | isTrue hv, isTrue hs => isTrue (by rw [h, hv, hs])
      | isFalse hv, _ => isFalse (by simp [hv])
      | _, isFalse hs => isFalse (by simp [hs])
    else isFalse (by simp [h])

end

instance : DecidableEq Json := decEq

/-! ## Members -/

/-- The member of an object with the given name, if the value is an object that has one. -/
def member? (name : String) : Json → Option Json
  | .obj members => members.lookup name
  | _ => none

/-- The text of a JSON string. -/
def string? : Json → Option String
  | .str s => some s
  | _ => none

/-- A text, or null where there is none. -/
def ofString? : Option String → Json
  | some s => .str s
  | none => .null

/-- An integer as JSON. -/
def ofInt (i : Int) : Json := .num (.int i)

/-- A count as JSON. -/
def ofNat (n : Nat) : Json := .num (.int n)

/-- Members that are left out when they have no value. -/
def given (name : String) (value : Option Json) : List (String × Json) :=
  match value with
  | some v => [(name, v)]
  | none => []

/-! ## Settled values -/

/-- Put a member before later ones, sorted by name; a later member of the same name wins. -/
def addEarlier (name : String) (value : Json) : List (String × Json) → List (String × Json)
  | [] => [(name, value)]
  | (m, v) :: rest =>
    if name = m then (m, v) :: rest
    else if name < m then (name, value) :: (m, v) :: rest
    else (m, v) :: addEarlier name value rest

mutual

/-- The plain value of a tree: every object sorted by name, the last of equal names kept. -/
def settle : Json → Json
  | .arr items => .arr (settleItems items)
  | .obj members => .obj (settleMembers members)
  | .null => .null
  | .bool b => .bool b
  | .num n => .num n
  | .str s => .str s

/-- Each item settled. -/
def settleItems : List Json → List Json
  | [] => []
  | x :: xs => settle x :: settleItems xs

/-- Members sorted by name, each value settled, the last of equal names kept. -/
def settleMembers : List (String × Json) → List (String × Json)
  | [] => []
  | (n, v) :: rest => addEarlier n (settle v) (settleMembers rest)

end

theorem settleItems_eq_map (xs : List Json) : settleItems xs = xs.map settle := by
  induction xs with
  | nil => rfl
  | cons x xs ih => simp [settleItems, ih]

end Json

end ListSync
