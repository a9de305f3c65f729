import TopicSpec.Batch
import TopicSpec.Text.Quoted

/-! # Log records

The records made of what is logged, and their lines in plain text and in JSON. -/

namespace TopicSpec.Log
set_option autoImplicit false

inductive Level where
  | error
  | warn
  | info
  | debug
  | trace
  deriving DecidableEq

namespace Level

def all : List Level := [error, warn, info, debug, trace]

def name : Level → String
  | error => "ERROR"
  | warn => "WARN"
  | info => "INFO"
  | debug => "DEBUG"
  | trace => "TRACE"

/-- The place in the order from the gravest to the most detailed level. -/
def rank : Level → Nat
  | error => 1
  | warn => 2
  | info => 3
  | debug => 4
  | trace => 5

def colour : Level → String
  | error => "31"
  | warn => "33"
  | info => "32"
  | debug => "34"
  | trace => "35"

/-- The name, filled up to five characters. -/
def padded (level : Level) : String :=
  String.ofList (List.replicate (5 - level.name.length) ' ') ++ level.name

end Level

inductive FieldValue where
  | shown (text : String)
  | quoted (text : String)
  | count (n : Nat)

structure Record where
  level : Level
  /-- The module that logs. -/
  target : String
  domain : String
  message : String
  fields : List (String × FieldValue)

def ofEntry : LogEntry → Record
  | .reading form text =>
    ⟨.debug, "hpl_lang::parser", "parse", s!"parsing `{text}`", [("start", .quoted form.name)]⟩
  | .refused d =>
    ⟨.error, "hpl_lang::batch", "batch",
      s!"Error in {d.entityKind.name} '{d.entityName}' when parsing {d.itemKind.name}",
      [("error_kind", .quoted d.error.label), ("text", .shown d.text),
        ("detail", .shown d.error.message)]⟩
  | .processed kind name report =>
    ⟨.info, "hpl_lang::batch", "batch", s!"{kind.name} '{name}' processed",
      [("entity", .shown name), ("parsed", .count report.parsed),
        ("skipped", .count report.skipped), ("failed", .count report.diagnostics.length)]⟩

namespace Record

def fieldNames (record : Record) : List String :=
  "message" :: "domain" :: record.fields.map (·.1)

def inColour (number text : String) : String := "\x1b[" ++ number ++ "m" ++ text ++ "\x1b[0m"

def plainField : String × FieldValue → String
  | (name, .shown text) => name ++ "=" ++ text
  | (name, .quoted text) => name ++ "=" ++ Text.quote text
  | (name, .count n) => name ++ "=" ++ toString n

def plain (colours : Bool) (record : Record) : String :=
  let level := record.level.padded
  let domain := "[" ++ record.domain ++ "]"
  let rest := " ".intercalate (record.message :: record.fields.map plainField)
  if colours then
    inColour record.level.colour level ++ " " ++ inColour "1;36" domain ++ " " ++ rest ++ "\n"
  else level ++ " " ++ domain ++ " " ++ rest ++ "\n"

def jsonMember (name value : String) : String := Text.jsonString name ++ ":" ++ value

def jsonObject (members : List String) : String :=
  "\x7b" ++ ",".intercalate members ++ "\x7d"

def jsonField : String × FieldValue → String
  | (name, .shown text) | (name, .quoted text) => jsonMember name (Text.jsonString text)
  | (name, .count n) => jsonMember name (toString n)

def json (record : Record) : String :=
  let fields := jsonObject <|
    jsonField ("message", .shown record.message) :: jsonField ("domain", .shown record.domain) ::
      record.fields.map jsonField
  jsonObject
    [jsonMember "level" (Text.jsonString record.level.name), jsonMember "fields" fields] ++ "\n"

end Record
end TopicSpec.Log
