import TopicSpec.SortedMap
import TopicSpec.Text.Blank
import TopicSpec.Typing.Kinds

/-! # Schemas

The types of message fields, by topic and dotted path. Array elements are addressed without an
index: `points.x` is the field `x` of every element of `points`. -/

namespace TopicSpec
set_option autoImplicit false

inductive BaseType where
  | bool
  | int
  | float
  | string
  /-- A nested message, whose own fields are declared with longer paths. -/
  | message
  deriving DecidableEq

namespace BaseType

def all : List BaseType := [bool, int, float, string, message]

def name : BaseType → String
  | bool => "bool"
  | int => "int"
  | float => "float"
  | string => "string"
  | message => "message"

def kind : BaseType → Kind
  | bool => .bool
  | int | float => .number
  | string => .string
  | message => .message

end BaseType

/-- A word that names no type. -/
structure UnknownType where
  word : String
  deriving DecidableEq

def UnknownType.message (e : UnknownType) : String := s!"unknown field type '{e.word}'"

def BaseType.ofName (word : String) : Except UnknownType BaseType :=
  match all.find? (·.name == word) with
  | some type => .ok type
  | none => .error ⟨word⟩

theorem BaseType.ofName_name (type : BaseType) : ofName type.name = .ok type := by
  cases type <;> rfl

inductive FieldType where
  | base (type : BaseType)
  | array (type : BaseType)
  deriving DecidableEq

namespace FieldType

def name : FieldType → String
  | base type => type.name
  | array type => type.name ++ "[]"

/-- The type named by a text, with blanks around the name and before the brackets of an array. -/
def ofText (text : String) : Except UnknownType FieldType :=
  let trimmed := Text.trim text.toList
  match trimmed.reverse with
  | ']' :: '[' :: element =>
    array <$> BaseType.ofName (String.ofList (Text.trim element.reverse))
  | _ => base <$> BaseType.ofName (String.ofList trimmed)

def ty : FieldType → Ty
  | base type => .only type.kind
  | array type => .array (.only type.kind)

end FieldType

abbrev Schema : Type := SortedMap FieldType

/-- The declared type of a path. A path that only begins declared paths is a nested message; its
continuations, if there are any, start with the first path that is not below `path` and a dot. -/
def Schema.field? (schema : Schema) (path : String) : Option FieldType :=
  match schema.find? path with
  | some type => some type
  | none =>
    match schema.firstFrom? (path ++ ".") with
    | some (key, _) =>
      if (path ++ ".").toList.isPrefixOf key.toList then some (.base .message) else none
    | none => none

abbrev TopicTable : Type := SortedMap Schema

/-- A source of field types. Only the topics it knows are typed by it; for those, a field without
type does not exist. -/
structure Resolver where
  knows : String → Bool
  fieldType? : (topic path : String) → Option FieldType

def TopicTable.resolver (table : TopicTable) : Resolver where
  knows := table.contains
  fieldType? topic path := (table.find? topic).bind (Schema.field? · path)

end TopicSpec
