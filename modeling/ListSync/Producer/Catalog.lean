import ListSync.Producer.FullList
import ListSync.Table

/-!
# The lists of a producer

A catalog holds lists in full under their names. What is asked of a list goes to the list of that
name, and is refused if there is none.
-/

namespace ListSync.Producer

/-- All lists of a producer, by name. -/
structure Catalog where
  lists : Table ListId FullList := {}
  /-- The page size of lists that do not bring their own. -/
  defaultPageSize : Nat
  defaultPageSize_pos : 0 < defaultPageSize

namespace Catalog

instance : Inhabited Catalog := ⟨{ defaultPageSize := 1, defaultPageSize_pos := by omega }⟩

/-- No lists. A default page size of zero counts as one. -/
def empty (defaultPageSize : Nat) : Catalog where
  defaultPageSize := max defaultPageSize 1
  defaultPageSize_pos := by omega

/-- Add a list, whose name must be new. -/
def insert (c : Catalog) (seed : Seed) : Except Refusal Catalog :=
  if c.lists.contains seed.listId then .error (.duplicate seed.listId)
  else
    let list := FullList.ofSeed seed c.defaultPageSize c.defaultPageSize_pos
    .ok { c with lists := c.lists.insert list.id list }

/-- The lists that some seeds give. -/
def ofSeeds (seeds : List Seed) (defaultPageSize : Nat) : Except Refusal Catalog :=
  seeds.foldlM insert (empty defaultPageSize)

/-- The lists of a seed file, given by its text if there is such a file. -/
def load (file : Option String) (defaultPageSize : Nat) : Except Refusal Catalog :=
  match file with
  | none => .error .noFile
  | some text => match Seed.readAll? text with
    | none => .error .badFile
    | some seeds => ofSeeds seeds defaultPageSize

/-- The list with a name. -/
def find (c : Catalog) (listId : ListId) : Except Refusal FullList :=
  match c.lists.get? listId with
  | some list => .ok list
  | none => .error (.notFound listId)

/-- The number of lists. -/
def size (c : Catalog) : Nat := c.lists.size

/-- What is told about each list, by name. -/
def summaries (c : Catalog) : List Summary :=
  (c.lists.values.map (·.summary)).mergeSort fun a b => a.listId ≤ b.listId

/-- What is told about a list. -/
def summary (c : Catalog) (listId : ListId) : Except Refusal Summary :=
  (c.find listId).map (·.summary)

/-- The payload with which a client registers a list. -/
def initial (c : Catalog) (listId : ListId) (q : Query) : Except Refusal Listing := do
  (← c.find listId).initial q

/-- The answer to a fetch. -/
def fetch (c : Catalog) (request : FetchRequest) : Except Refusal Answer := do
  (← c.find request.listId).respond request

/-- The index of the first item of a page of a list. -/
def pageStart (c : Catalog) (listId : ListId) (token : String) : Except Refusal Int := do
  (← c.find listId).pageStart token

/-- Apply edits to a list. -/
def apply (c : Catalog) (listId : ListId) (edits : List (Edit Item)) :
    Except Refusal (Catalog × Batch × List Warning) := do
  let (list, batch, warnings) := (← c.find listId).apply edits
  return ({ c with lists := c.lists.insert listId list }, batch, warnings)

end Catalog

end ListSync.Producer
