import ListSync.Json.Basic

/-!
# Schemas

What a text is read for. A schema says which parts of a text are looked at, and what is refused as
soon as it is seen rather than when all has been read. A record looks only at its fields; a tagged
record is looked at as a whole, and its tag first.

Schemas do not decide what a value means: a value that has been read by a schema is still decoded.
-/

namespace ListSync

mutual

/-- What a text is read for. -/
inductive Schema where
  /-- Nothing: any value will do, and nothing of it is kept. -/
  | skipped
  /-- Any value, with all that is in it. -/
  | whole
  /-- One of some names. -/
  | nameOf (names : List String)
  /-- An array. -/
  | list (item : Schema)
  /-- The fields of a record, in an object or in an array. -/
  | record (fields : List Field)
  /-- A record that carries one of some names in the given member, or as the first item of an
  array. -/
  | variant (tag : String) (names : List String) (fits : Json → Bool)

/-- A field of a record. -/
inductive Field where
  /-- A field that every array form of the record holds. -/
  | fixed (name : String)
  /-- A field that may be left off at the end of an array. -/
  | droppable (name : String)
  /-- A field that every array form of the record holds, and that is read by a schema. -/
  | nested (name : String) (schema : Schema)

end

instance : Inhabited Schema := ⟨.whole⟩

namespace Field

/-- The member name of a field. -/
def name : Field → String
  | fixed n => n
  | droppable n => n
  | nested n _ => n

/-- Whether the field may be left off at the end of an array. -/
def isDroppable : Field → Bool
  | droppable _ => true
  | _ => false

/-- What a field is read for. -/
def schema : Field → Schema
  | nested _ s => s
  | _ => .whole

end Field

namespace Schema

/-- Whether nothing is looked at. -/
def isSkipped : Schema → Bool
  | skipped => true
  | _ => false

/-- Whether a string or scalar may stand here. -/
def takesScalar (s : Schema) (value : Json) : Bool :=
  match s with
  | skipped | whole => true
  | nameOf names => value.string?.any (names.contains ·)
  | list _ | record _ | variant .. => false

/-- Whether an array may stand here. -/
def takesArray : Schema → Bool
  | nameOf _ => false
  | _ => true

/-- Whether an object may stand here. -/
def takesObject : Schema → Bool
  | nameOf _ | list _ => false
  | _ => true

/-- What the next item of an array is read for, behind the items that are given. There is none
behind the last field of a record. -/
def item? (s : Schema) (before : List Json) : Option Schema :=
  match s with
  | list item => some item
  | record fields => fields[before.length]?.map Field.schema
  | variant _ names _ => some (if before.isEmpty then .nameOf names else .whole)
  | skipped => some .skipped
  | whole | nameOf _ => some .whole

/-- What the named member of an object is read for. -/
def member (s : Schema) (name : String) : Schema :=
  match s with
  | record fields => ((fields.find? (·.name = name)).map Field.schema).getD .skipped
  | variant tag names _ => if name = tag then .nameOf names else .whole
  | skipped => .skipped
  | whole | nameOf _ | list _ => .whole

/-- Whether the named member may occur only once. -/
def isSingle (s : Schema) (name : String) : Bool :=
  match s with
  | record fields => fields.any (·.name = name)
  | variant tag _ _ => name = tag
  | _ => false

/-- Whether a value that has been read to its end may stay. -/
def keeps (s : Schema) (value : Json) : Bool :=
  match s with
  | variant _ _ fits => fits value
  | _ => true

end Schema

end ListSync
