import TopicSpec.Grammar.Condition

/-! # Specifications

The grammar of events, scopes, patterns, properties and assumptions, and the reading of a whole
text. -/

namespace TopicSpec.Grammar
open Scan
set_option autoImplicit false

/-! ## Events -/

def topic : Scan SyntaxTree := do
  let name ← topicName
  return .node .topicName [.token .topicName name]

/-- `"{" condition "}"` -/
def guard : Scan SyntaxTree := do
  literal "\x7b"
  gap
  let condition ← require .guardCondition anyCondition
  gap
  require .closingBrace (literal "\x7d")
  return .node .guard [condition]

/-- `"as" IDENTIFIER`, with the gap before it. -/
def aliasName : Scan SyntaxTree := do
  gap
  keyword "as"
  gap
  let name ← require .aliasName identifier
  return .token .name name

/-- `topic ["as" IDENTIFIER]` -/
def message : Scan SyntaxTree := do
  let topic ← topic
  let name ← optional aliasName
  return .node .message (topic :: name.toList)

def eventGuard : Scan SyntaxTree := do
  gap
  guard

/-- `message [guard]` -/
def event : Scan SyntaxTree := do
  let message ← message
  let guard ← optional eventGuard
  return .node .event (message :: guard.toList)

/-! ## Scopes -/

def globalScope : Scan SyntaxTree := do
  keyword "globally"
  return .node .globalScope []

def activator : Scan SyntaxTree := do
  let event ← commit event
  return .node .activator [event]

def terminator : Scan SyntaxTree := do
  let event ← commit event
  return .node .terminator [event]

/-- `"after" activator ["until" terminator]` -/
def afterUntil : Scan SyntaxTree := do
  keyword "after"
  gap
  let activator ← activator
  gap
  match ← optional (keyword "until") with
  | none => return .node .afterUntil [activator]
  | some () =>
    gap
    let terminator ← terminator
    return .node .afterUntil [activator, terminator]

/-- `"until" terminator` -/
def untilScope : Scan SyntaxTree := do
  keyword "until"
  gap
  let terminator ← terminator
  return .node .untilScope [terminator]

def scope : Scan SyntaxTree := firstOf globalScope [afterUntil, untilScope]

/-! ## Patterns -/

/-- The unit of a bound, with the production it makes of the bound. -/
def boundUnit : Scan (Rule × String) :=
  firstOf (oneKeyword "ms" [] >>= fun unit => pure (.timeAmount, unit))
    [oneKeyword "s" [] >>= fun unit => pure (.timeAmount, unit),
     oneKeyword "hz" [] >>= fun unit => pure (.frequency, unit)]

/-- `"within" NUMBER ("ms" | "s" | "hz")`, with the gap before it. -/
def bound : Scan SyntaxTree := do
  gap
  keyword "within"
  gap
  let amount ← require .boundAmount Scan.number
  gap
  let (rule, unit) ← require .boundUnit boundUnit
  return .node rule [.token .number amount, .leaf ⟨.unit, unit⟩]

/-- `word event [bound]` -/
def unaryPattern (word : String) (rule : Rule) : Scan SyntaxTree := do
  keyword word
  gap
  let behaviour ← commit event
  let bound ← optional bound
  return .node rule (behaviour :: bound.toList)

/-- The word between the events of a pattern, as the production it makes of them. -/
def patternKeyword : Scan Rule :=
  firstOf (keyword "causes" >>= fun _ => pure .response)
    [keyword "forbids" >>= fun _ => pure .prevention,
     keyword "requires" >>= fun _ => pure .requirement]

/-- `event ("causes" | "forbids" | "requires") event [bound]` -/
def binaryPattern : Scan SyntaxTree := do
  let first ← event
  gap
  let rule ← require .patternKeyword patternKeyword
  gap
  let second ← commit event
  let bound ← optional bound
  return .node rule (first :: second :: bound.toList)

def pattern : Scan SyntaxTree :=
  firstOf (unaryPattern "some" .existence) [unaryPattern "no" .absence, binaryPattern]

/-! ## Whole texts -/

/-- `scope ":" pattern` -/
def property : Scan SyntaxTree := do
  gap
  let scope ← require .scope scope
  gap
  require .colonAfterScope (literal ":")
  gap
  let pattern ← require .pattern pattern
  gap
  return .node .property [scope, pattern]

/-- `topic guard` -/
def assumption : Scan SyntaxTree := do
  gap
  let topic ← require .topic topic
  gap
  let guard ← require .guard guard
  gap
  return .node .assumption [topic, guard]

def topLevelCondition : Scan SyntaxTree := do
  gap
  let condition ← anyCondition
  gap
  return .node .topLevelCondition [condition]

end TopicSpec.Grammar

namespace TopicSpec

inductive Form where
  | property
  | assumption
  | predicate
  deriving DecidableEq

namespace Form

def name : Form → String
  | property => "property"
  | assumption => "assumption"
  | predicate => "predicate"

def production : Form → Scan SyntaxTree
  | property => Grammar.property
  | assumption => Grammar.assumption
  | predicate => Grammar.topLevelCondition

end Form

def SyntaxTree.ofText (form : Form) (text : String) : Except SyntaxError SyntaxTree :=
  form.production.whole text.toList

end TopicSpec
