import ListSync.Index
import ListSync.Json.Schema

/-!
# Records in JSON

How typed data is found in a value. A record is an object, of which unknown members are ignored and
no known member may occur twice, or an array of its fields in order. A tagged record carries the
name of its variant in one member, or as the first item of an array. `Record.required`,
`Record.optional` and `Record.withDefault` differ in what a missing or null field means.
-/

namespace ListSync

namespace Json

/-! ## Scalars and lists -/

/-- An integer that is an index. -/
def index? : Json → Option Int
  | .num (.int i) => if Index.InRange i then some i else none
  | _ => none

/-- An integer that is a count. -/
def count? : Json → Option Nat
  | .num (.int i) => if 0 ≤ i ∧ i ≤ maxCount then some i.toNat else none
  | _ => none

/-- The items of an array. -/
def items? : Json → Option (List Item)
  | .arr xs => some xs
  | _ => none

/-- An array whose items are all of one type. -/
def list? {α : Type} (decode : Json → Option α) : Json → Option (List α)
  | .arr xs => xs.mapM decode
  | _ => none

/-- A bare name: a string, or an object with that one member and no value in it. -/
def name? : Json → Option String
  | .str s => some s
  | .obj [(s, .null)] => some s
  | _ => none

/-- A bare name in a field of a tagged record. There an empty object is no value either. -/
def innerName? : Json → Option String
  | .obj [(s, .obj [])] => some s
  | j => j.name?

end Json

/-- The fields of a record that were given, by name. -/
abbrev Record := List (String × Json)

namespace Record

/-- A field that must be given. -/
def required {α : Type} (r : Record) (name : String) (decode : Json → Option α) : Option α :=
  (r.lookup name).bind decode

/-- A field that has no value when it is missing or null. -/
def optional {α : Type} (r : Record) (name : String) (decode : Json → Option α) :
    Option (Option α) :=
  match r.lookup name with
  | none => some none
  | some .null => some none
  | some v => (decode v).map some

/-- A field that has a default when it is missing, but may not be null. -/
def withDefault {α : Type} (r : Record) (name : String) (decode : Json → Option α) (default : α) :
    Option α :=
  match r.lookup name with
  | none => some default
  | some v => decode v

end Record

namespace Json

/-- The fields of a record that a value gives. -/
def record? (fields : List Field) : Json → Option Record
  | .obj members =>
    let given := members.filter fun m => fields.any (·.name = m.1)
    if (given.map (·.1)).Nodup then some given else none
  | .arr xs =>
    if xs.length ≤ fields.length ∧ (fields.drop xs.length).all (·.isDroppable) then
      some ((fields.map (·.name)).zip xs)
    else none
  | _ => none

/-- The fields of a record that must be an object. -/
def namedRecord? (fields : List Field) : Json → Option Record
  | .obj members => record? fields (.obj members)
  | _ => none

/-- The variant named by a tagged record, and what is left for its fields. -/
def tagged? (tag : String) : Json → Option (String × Json)
  | .obj members =>
    match members.filter (·.1 = tag) with
    | [(_, .str name)] => some (name, .obj (members.filter (·.1 ≠ tag)))
    | _ => none
  | .arr (.str name :: rest) => some (name, .arr rest)
  | _ => none

end Json

end ListSync
