import TopicSpec.Expr.Render
import TopicSpec.Scan.Outcome
import TopicSpec.SyntaxTree
import TopicSpec.Typing.Kinds

/-! # Errors

The causes for which a text or a tree is refused, and their messages. -/

namespace TopicSpec
set_option autoImplicit false

/-- A specification whose names or bounds make no sense. -/
inductive BindingError where
  | selfReference (name topic : String)
  | undefinedEvent (name : String)
  | duplicateAlias (name : String)
  | shadowedName (name : String)
  | integerOutOfRange (lexeme : String)
  | invalidFrequency (amount unit : String)
  deriving DecidableEq

def BindingError.message : BindingError → String
  | selfReference name topic => s!"self-referential alias: '{name}' in event '{topic}'"
  | undefinedEvent name => s!"reference to undefined event: '{name}'"
  | duplicateAlias name => s!"duplicate alias: '{name}'"
  | shadowedName name => s!"variable shadows '{name}'"
  | integerOutOfRange lexeme => s!"integer literal out of range: {lexeme}"
  | invalidFrequency amount unit => s!"invalid frequency: {amount} {unit}"

/-- The part that a value plays where its kind matters. -/
inductive Role where
  | fieldBase
  | indexed
  | arrayIndex
  | argument (function : String)
  | setMember
  | lowerBound
  | upperBound
  | negated
  | negative
  | leftOperand (op : BinaryOp)
  | rightOperand (op : BinaryOp)
  | domain
  | body
  | condition
  | guard
  deriving DecidableEq

def Role.describe : Role → String
  | fieldBase => "field access base"
  | indexed => "indexed value"
  | arrayIndex => "array index"
  | argument function => s!"argument of {function}()"
  | setMember => "set member"
  | lowerBound => "range lower bound"
  | upperBound => "range upper bound"
  | negated => "operand of 'not'"
  | negative => "operand of unary '-'"
  | leftOperand op => s!"left operand of '{op.symbol}'"
  | rightOperand op => s!"right operand of '{op.symbol}'"
  | domain => "quantifier domain"
  | body => "quantifier body"
  | condition => "condition"
  | guard => "predicate"

inductive TypeError where
  | mismatch (role : Role) (expected found : Kinds) (expr : Expr)
  | incomparable (left right : Kinds) (expr : Expr)
  | unknownFunction (name : String)
  | operandCount (found : Nat) (expr : Expr)
  | missingField (topic path : String) (expr : Expr)

def TypeError.message : TypeError → String
  | mismatch role expected found expr =>
    s!"{role.describe} must be {expected.render}, found {found.render} in `{expr.render}`"
  | incomparable left right expr =>
    s!"cannot compare {left.render} with {right.render} in `{expr.render}`"
  | unknownFunction name => s!"unknown function '{name}'"
  | operandCount found expr => s!"unexpected operand count {found} in `{expr.render}`"
  | missingField topic path expr => s!"topic '{topic}' has no field '{path}' in `{expr.render}`"

inductive Sense where
  | token
  | expression
  | predicate
  | topic
  | message
  | event
  | scope
  | pattern
  | duration
  | property
  | assumption
  deriving DecidableEq

def Sense.name : Sense → String
  | token => "token"
  | expression => "expression"
  | predicate => "predicate"
  | topic => "topic"
  | message => "message"
  | event => "event"
  | scope => "scope"
  | pattern => "pattern"
  | duration => "duration"
  | property => "property"
  | assumption => "assumption"

/-- How a node of a tree can differ from its production. -/
inductive ShapeFault where
  | childCount (allowed : List Nat) (found : Nat)
  | eventCount (allowed found : Nat)
  | sort (expected found : Sense)
  | tokenKind (expected : TokenKind) (found : Token)
  | scopeAndPattern
  | messageAndGuard
  | emptySet
  | delimiter (text : String)
  | operator (text : String)
  | quantifier (text : String)
  | number (text : String)
  | boolean (text : String)
  | string (text : String)
  | constant (text : String)
  | amount (text : String)
  | timeUnit (text : String)
  | frequencyUnit (text : String)
  deriving DecidableEq

def ShapeFault.message : ShapeFault → String
  | childCount allowed found =>
    let counts := " or ".intercalate (allowed.map toString)
    s!"expected {counts} children, found {found}"
  | eventCount allowed found => s!"expected {allowed} events, found {found}"
  | sort expected found => s!"expected {expected.name}, found {found.name}"
  | tokenKind expected found =>
    s!"expected {expected.label} token, found {found.kind.label} `{found.text}`"
  | scopeAndPattern => "expected scope and pattern"
  | messageAndGuard => "expected message and optional predicate"
  | emptySet => "empty set"
  | delimiter text => s!"bad delimiter '{text}'"
  | operator text => s!"unknown operator '{text}'"
  | quantifier text => s!"unknown quantifier '{text}'"
  | number text => s!"bad number '{text}'"
  | boolean text => s!"bad boolean '{text}'"
  | string text => s!"unquoted string {text}"
  | constant text => s!"unknown constant '{text}'"
  | amount text => s!"bad amount '{text}'"
  | timeUnit text => s!"unknown time unit '{text}'"
  | frequencyUnit text => s!"unknown frequency unit '{text}'"

/-- A tree in which a node has not the shape of its production. -/
structure ShapeError where
  rule : Rule
  fault : ShapeFault
  deriving DecidableEq

def ShapeError.message (e : ShapeError) : String :=
  s!"grammar contract violated in `{e.rule.name}`: {e.fault.message}"

inductive SpecError where
  | malformed (e : SyntaxError)
  | binding (e : BindingError)
  | typing (e : TypeError)
  | shape (e : ShapeError)

namespace SpecError

def label : SpecError → String
  | malformed _ => "syntax"
  | binding _ => "sanity"
  | typing _ => "type"
  | shape _ => "grammar"

/-- The message without the class, where the class is not part of it. -/
def detail : SpecError → String
  | malformed e => s!"syntax error at offset {e.offset}: {e.message}"
  | binding e => e.message
  | typing e => e.message
  | shape e => e.message

def message (e : SpecError) : String :=
  match e with
  | binding _ => "sanity error: " ++ e.detail
  | typing _ => "type error: " ++ e.detail
  | _ => e.detail

/-- Errors of binding and typing concern one text alone. -/
def isLocal : SpecError → Bool
  | binding _ | typing _ => true
  | _ => false

end SpecError

instance : MonadLift (Except BindingError) (Except SpecError) where
  monadLift r := r.mapError .binding

instance : MonadLift (Except TypeError) (Except SpecError) where
  monadLift r := r.mapError .typing

instance : MonadLift (Except ShapeError) (Except SpecError) where
  monadLift r := r.mapError .shape

end TopicSpec
