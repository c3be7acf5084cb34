import ListSync.Decimal
import ListSync.Index

/-!
# Settings of a producer

Settings come from named variables, each of which may be missing. A variable that is present must
hold a value that makes sense, except that an empty secret counts as none.
-/

namespace ListSync.Producer

/-- The settings of a producer. -/
structure Settings where
  host : String := "0.0.0.0"
  portNumber : Nat := 3000
  /-- The file that holds the lists. -/
  listsPath : Option String := none
  /-- What callers must show to change lists. -/
  secret : Option String := none
  /-- The page size of lists that do not bring their own. -/
  defaultPageSize : Nat := 20
deriving DecidableEq, Repr, Inhabited

/-- What is wrong with the variables. -/
inductive SettingsFault where
  | invalidPort
  | invalidPageSize
deriving DecidableEq, Repr

/-- The wording of a fault. -/
def SettingsFault.message : SettingsFault → String
  | invalidPort => "Invalid PORT value"
  | invalidPageSize => "DEFAULT_PAGE_SIZE must be a positive integer"

namespace Settings

/-- Ports have numbers up to this one. -/
def maxPortNumber : Nat := 65535

/-- A setting that has its default when the variable is missing, and a fault when it cannot be
read. -/
def setting {α : Type} (given : Option String) (default : α) (read : List Char → Option α)
    (fault : SettingsFault) : Except SettingsFault α :=
  match given with
  | none => .ok default
  | some text => match read text.toList with
    | some a => .ok a
    | none => .error fault

/-- The settings that some variables give. Of two faults the one in the number of the socket comes
first. -/
def ofVariables (get? : String → Option String) : Except SettingsFault Settings := do
  let default : Settings := {}
  let portNumber ← setting (get? "PORT") default.portNumber (Decimal.count? maxPortNumber)
    .invalidPort
  let pageSize ← setting (get? "DEFAULT_PAGE_SIZE") default.defaultPageSize
    (fun cs => (Decimal.count? maxCount cs).filter (0 < ·)) .invalidPageSize
  return {
    host := (get? "HOST").getD default.host
    portNumber
    listsPath := get? "LISTS_PATH"
    secret := (get? "AUTH_SECRET").filter (!·.isEmpty)
    defaultPageSize := pageSize }

end Settings

end ListSync.Producer
