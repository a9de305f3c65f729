import TopicSpec.Batch
import TopicSpec.Config.Shape
import TopicSpec.Text.Quoted
import TopicSpec.Toml.Reader

/-! # Configurations

What a configuration file says: the policy, the logging, the schemas of topics, and the nodes and
configurations with their specifications. The first fault counts, of types first, then of levels,
then of names. -/

namespace TopicSpec
set_option autoImplicit false

inductive LogFormat where
  | plain
  | json
  deriving DecidableEq

def LogFormat.name : LogFormat → String
  | plain => "plain"
  | json => "json"

structure LoggingConfig where
  level : String
  /-- The levels of modules, which take the place of the general one. -/
  modules : SortedMap String
  /-- The log file, relative to the directory of the configuration file. -/
  file : Option String
  format : LogFormat

namespace LoggingConfig

def standard : LoggingConfig := ⟨"info", .empty, none, .plain⟩

/-- The general level, and then a pair for each module. -/
def directives (logging : LoggingConfig) : String :=
  logging.modules.entries.foldl (fun text (target, level) => text ++ "," ++ target ++ "=" ++ level)
    logging.level

end LoggingConfig

structure EntityConfig where
  name : String
  properties : List String
  assumptions : List String

structure Config where
  policy : Policy
  logging : LoggingConfig
  topics : TopicTable
  nodes : List EntityConfig
  configurations : List EntityConfig

namespace Config

/-- A document of the right shape, before it is checked. -/
structure Draft where
  policy : Policy
  logging : LoggingConfig
  topics : SortedMap (SortedMap String)
  nodes : List EntityConfig
  configurations : List EntityConfig

/-! ## Shapes -/

namespace Shape

def policy : Shape Policy := fun value => do
  let field ← fields ["syntax_errors"] value
  let options := [("fail_fast", Policy.failFast), ("report", Policy.report)]
  withDefault (choice options) .failFast (field "syntax_errors")

def logging : Shape LoggingConfig := fun value => do
  let field ← fields ["level", "modules", "file", "format"] value
  let formats := [("plain", LogFormat.plain), ("json", LogFormat.json)]
  return {
    level := ← withDefault text "info" (field "level")
    modules := ← withDefault (map text) .empty (field "modules")
    file := ← optional text (field "file")
    format := ← withDefault (choice formats) .plain (field "format") }

def entity : Shape EntityConfig := fun value => do
  let field ← fields ["name", "properties", "assumptions"] value
  return {
    name := ← text (← field "name")
    properties := ← withDefault (list text) [] (field "properties")
    assumptions := ← withDefault (list text) [] (field "assumptions") }

def draft : Shape Draft := fun value => do
  let field ← fields ["parser", "logging", "topics", "node", "configuration"] value
  return {
    policy := ← withDefault policy .failFast (field "parser")
    logging := ← withDefault logging .standard (field "logging")
    topics := ← withDefault (map (map text)) .empty (field "topics")
    nodes := ← withDefault (list entity) [] (field "node")
    configurations := ← withDefault (list entity) [] (field "configuration") }

end Shape
end Config

inductive ConfigError where
  /-- It is no document, or not of the right shape. -/
  | document
  | fieldType (topic path : String) (error : UnknownType)
  /-- The level of a module, or the general one. -/
  | level (target : Option String) (level : String)
  | emptyName (kind : EntityKind) (index : Nat)
  | duplicateName (kind : EntityKind) (index : Nat) (name : String)

namespace ConfigError

def keyOf : EntityKind → String
  | .node => "node"
  | .configuration => "configuration"

def levels : List String := ["off", "error", "warn", "info", "debug", "trace"]

def message : ConfigError → String
  | document => "invalid configuration document"
  | fieldType topic path error =>
    s!"topics.{Text.quote topic}.{Text.quote path}: {error.message}"
  | level target found =>
    let key :=
      match target with
      | none => "logging.level"
      | some name => "logging.modules." ++ Text.quote name
    let expected := ", ".intercalate levels
    s!"{key}: unknown log level {Text.quote found}, expected one of {expected}"
  | emptyName kind index => s!"{keyOf kind}[{index}]: name must not be empty"
  | duplicateName kind index name =>
    s!"{keyOf kind}[{index}]: duplicate {keyOf kind} name {Text.quote name}"

end ConfigError

namespace Config

def schema (topic : String) (fields : SortedMap String) : Except ConfigError Schema :=
  fields.entries.foldlM
    (fun schema (path, typeName) => do
      let type ← (FieldType.ofText typeName).mapError (.fieldType topic path)
      return schema.insert path type) .empty

def topicTable (topics : SortedMap (SortedMap String)) : Except ConfigError TopicTable :=
  topics.entries.foldlM
    (fun table (topic, fields) => do return table.insert topic (← schema topic fields)) .empty

def isLevel (level : String) : Bool :=
  ConfigError.levels.contains (String.ofList (level.toList.map Char.toLower))

def checkLevel (target : Option String) (level : String) : Except ConfigError Unit :=
  if isLevel level then .ok () else .error (.level target level)

/-- Accepts entities, the first with the given index, whose names are neither empty, nor equal,
nor among those seen. -/
def checkNames (kind : EntityKind) (index : Nat) (seen : List String) :
    List EntityConfig → Except ConfigError Unit
  | [] => .ok ()
  | entity :: rest =>
    if (Text.trim entity.name.toList).isEmpty then .error (.emptyName kind index)
    else if seen.contains entity.name then .error (.duplicateName kind index entity.name)
    else checkNames kind (index + 1) (entity.name :: seen) rest

def ofDraft (draft : Draft) : Except ConfigError Config := do
  let topics ← topicTable draft.topics
  checkLevel none draft.logging.level
  draft.logging.modules.entries.forM fun (target, level) => checkLevel (some target) level
  checkNames .node 0 [] draft.nodes
  checkNames .configuration 0 [] draft.configurations
  return ⟨draft.policy, draft.logging, topics, draft.nodes, draft.configurations⟩

def ofText (text : String) : Except ConfigError Config :=
  match Toml.parse? text >>= Shape.draft with
  | some draft => ofDraft draft
  | none => .error .document

def entities (config : Config) : List Entity :=
  let make (kind : EntityKind) (e : EntityConfig) : Entity :=
    .ofTexts kind e.name e.properties e.assumptions
  config.nodes.map (make .node) ++ config.configurations.map (make .configuration)

end Config
end TopicSpec
