import ListSync.Window.Index
import ListSync.Window.Token

/-!
# Windows of either kind of list
-/

namespace ListSync

/-- The loaded window of a list. -/
inductive Window where
  | index (window : IndexWindow)
  | token (window : TokenWindow)
deriving DecidableEq, Repr, Inhabited

namespace Window

/-- The kind of list a window belongs to. -/
def kind : Window → Kind
  | index _ => .index
  | token _ => .token

/-- Whether anything is being fetched. -/
def hasInFlight : Window → Bool
  | index w => !w.inFlight.isEmpty
  | token w => !w.inFlight.isEmpty

/-- Forget all that is being fetched. -/
def clearAll : Window → Window
  | index w => index { w with inFlight := [] }
  | token w => token w.clearAll

/-- A window as JSON, tagged by its kind. -/
def toJson : Window → Json
  | index w => .obj (("kind", .str "index") :: w.members)
  | token w => .obj (("kind", .str "token") :: w.members)

/-- A window from JSON. -/
def ofJson? (j : Json) : Option Window := do
  let (tag, body) ← j.tagged? "kind"
  match tag with
  | "index" => return index (← IndexWindow.ofJson? body)
  | "token" => return token (← TokenWindow.ofJson? body)
  | _ => none

end Window

end ListSync
