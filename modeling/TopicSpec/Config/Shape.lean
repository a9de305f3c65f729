import TopicSpec.SortedMap
import TopicSpec.Toml.Value

/-! # Shapes of values

Readers of the values of a document as texts, lists, maps, choices and records. A value of another
shape gives nothing. -/

namespace TopicSpec.Config
open Toml (Value)
set_option autoImplicit false

variable {α : Type}

abbrev Shape (α : Type) : Type := Value → Option α

namespace Shape

def text : Shape String
  | .string s => some s
  | _ => none

def list (item : Shape α) : Shape (List α)
  | .array items | .tables items => items.mapM item
  | _ => none

/-- The key under which a date stands as a map of one entry. -/
def dateKey : String := "$__toml_private_datetime"

def entries : Value → Option (List (String × Value))
  | .table _ entries => some entries
  | .datetime s => some [(dateKey, .string s)]
  | _ => none

def map (item : Shape α) : Shape (SortedMap α) := fun value => do
  let entries ← (← entries value).mapM fun (key, value) => do return (key, ← item value)
  return SortedMap.ofList entries

def isEmpty : Value → Bool
  | .array items | .tables items => items.isEmpty
  | .table _ entries => entries.isEmpty
  | _ => false

/-- One of the named options: its name, or a table with an empty value under its name. -/
def choice (options : List (String × α)) : Shape α := fun value => do
  let name ←
    match value with
    | .string s => some s
    | .table _ [(key, inner)] => if isEmpty inner then some key else none
    | _ => none
  (options.find? (·.1 == name)).map (·.2)

/-- The fields of a record: the entries of a table by name, or the items of an array in the order
of the names. A number that is too large may stand in no other entry, but in a further item. -/
def fields (names : List String) : Value → Option (String → Option Value)
  | .array items | .tables items => some fun name => items[names.idxOf name]?
  | value => do
    let entries ← entries value
    guard (entries.all fun (key, value) => names.contains key || !value.overflows)
    return fun name => (entries.find? (·.1 == name)).map (·.2)

def optional (shape : Shape α) (field : Option Value) : Option (Option α) :=
  match field with
  | some value => some <$> shape value
  | none => some none

def withDefault (shape : Shape α) (standard : α) (field : Option Value) : Option α :=
  (·.getD standard) <$> optional shape field

end Shape
end TopicSpec.Config
