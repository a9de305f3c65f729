import TopicSpec.Binding
import TopicSpec.Grammar.Specification
import TopicSpec.Literal.Reading
import TopicSpec.Typing.Environment

/-! # What a tree stands for

Every subtree stands for a phrase: a lexeme, an expression with its type, an event, and so on. The
phrase of a node is built from those of its children. A node that has not the shape of its
production is refused, as is one that breaks the typing rule; a whole property, assumption or
condition is moreover checked for its bindings and typed in its environment.
-/

namespace TopicSpec
set_option autoImplicit false

inductive Phrase where
  | token (token : Token)
  | expr (expr : Expr) (ty : Ty)
  | guard (condition : Expr)
  | topic (name : String)
  | message (topic : String) (alias? : Option String)
  | event (event : Event)
  | scope (scope : Scope)
  | pattern (pattern : Pattern)
  | seconds (time : Double)
  | property (property : Property)
  | assumption (assumption : Assumption)

namespace Phrase

def sense : Phrase → Sense
  | token _ => .token
  | expr _ _ => .expression
  | guard _ => .predicate
  | topic _ => .topic
  | message _ _ => .message
  | event _ => .event
  | scope _ => .scope
  | pattern _ => .pattern
  | seconds _ => .duration
  | property _ => .property
  | assumption _ => .assumption

variable {α : Type}

def refuse (rule : Rule) (fault : ShapeFault) : Except SpecError α := .error (.shape ⟨rule, fault⟩)

def toExpr (rule : Rule) : Phrase → Except SpecError (Expr × Ty)
  | expr e ty => .ok (e, ty)
  | other => refuse rule (.sort .expression other.sense)

def toToken (rule : Rule) (kind : TokenKind) : Phrase → Except SpecError String
  | token t => if t.kind = kind then .ok t.text else refuse rule (.tokenKind kind t)
  | other => refuse rule (.sort .token other.sense)

def toEvent (rule : Rule) : Phrase → Except SpecError Event
  | event e => .ok e
  | other => refuse rule (.sort .event other.sense)

def toSeconds (rule : Rule) : Phrase → Except SpecError Double
  | seconds time => .ok time
  | other => refuse rule (.sort .duration other.sense)

def toGuard (rule : Rule) : Phrase → Except SpecError Expr
  | guard condition => .ok condition
  | other => refuse rule (.sort .predicate other.sense)

def toTopic (rule : Rule) : Phrase → Except SpecError String
  | topic name => .ok name
  | other => refuse rule (.sort .topic other.sense)

/-! ## Expressions -/

/-- An expression together with the type that the typing rule gives it. -/
def typed (e : Expr) (children : List Ty) : Except SpecError Phrase := do
  return expr e (← Typing.nodeType e children)

/-- The productions of the levels of precedence: a lone operand stands for itself. -/
def ofChain (rule : Rule) : List Phrase → Except SpecError Phrase
  | [operand] => do
    let (e, ty) ← operand.toExpr rule
    return expr e ty
  | [left, op, right] => do
    let symbol ← op.toToken rule .operator
    match BinaryOp.ofSymbol? symbol with
    | none => refuse rule (.operator symbol)
    | some op =>
      let (left, leftType) ← left.toExpr rule
      let (right, rightType) ← right.toExpr rule
      typed (.binary op left right) [leftType, rightType]
  | phrases => refuse rule (.childCount [1, 3] phrases.length)

def ofNegation (rule : Rule) : List Phrase → Except SpecError Phrase
  | [_, operand] => do
    let (operand, ty) ← operand.toExpr rule
    typed (.unary .not operand) [ty]
  | phrases => refuse rule (.childCount [2] phrases.length)

/-- A number takes up the minus sign before it. -/
def ofNegativeNumber (rule : Rule) : List Phrase → Except SpecError Phrase
  | [_, operand] => do
    let (operand, ty) ← operand.toExpr rule
    let negated? :=
      match operand with
      | .literal l => l.negate?
      | _ => none
    match negated? with
    | some negated => typed (.literal negated) []
    | none => typed (.unary .neg operand) [ty]
  | phrases => refuse rule (.childCount [2] phrases.length)

def ofQuantification (rule : Rule) : List Phrase → Except SpecError Phrase
  | [quantifier, bound, domain, body] => do
    let word ← quantifier.toToken rule .quantifier
    match Quantifier.ofWord? word with
    | none => refuse rule (.quantifier word)
    | some quantifier =>
      let bound ← bound.toToken rule .name
      let (domain, domainType) ← domain.toExpr rule
      let (body, bodyType) ← body.toExpr rule
      typed (.quantified quantifier bound domain body) [domainType, bodyType]
  | phrases => refuse rule (.childCount [4] phrases.length)

def ofFunctionCall (rule : Rule) : List Phrase → Except SpecError Phrase
  | [function, argument] => do
    let function ← function.toToken rule .name
    let (argument, ty) ← argument.toExpr rule
    typed (.call function argument) [ty]
  | phrases => refuse rule (.childCount [2] phrases.length)

def ofEnumLiteral (rule : Rule) (phrases : List Phrase) : Except SpecError Phrase :=
  if phrases.isEmpty then refuse rule .emptySet
  else do
    let members ← phrases.mapM (toExpr rule)
    typed (.set (members.map (·.1))) (members.map (·.2))

def excludes (rule : Rule) (inclusive exclusive text : String) : Except SpecError Bool :=
  if text = inclusive then .ok false
  else if text = exclusive then .ok true
  else refuse rule (.delimiter text)

def ofRangeLiteral (rule : Rule) : List Phrase → Except SpecError Phrase
  | [left, lower, upper, right] => do
    let excludeLower ← excludes rule "[" "![" (← left.toToken rule .leftDelimiter)
    let excludeUpper ← excludes rule "]" "]!" (← right.toToken rule .rightDelimiter)
    let (lower, lowerType) ← lower.toExpr rule
    let (upper, upperType) ← upper.toExpr rule
    typed (.range lower upper excludeLower excludeUpper) [lowerType, upperType]
  | phrases => refuse rule (.childCount [4] phrases.length)

def ofVariable (rule : Rule) : List Phrase → Except SpecError Phrase
  | [name] => do
    typed (.var (← name.toToken rule .name)) []
  | phrases => refuse rule (.childCount [1] phrases.length)

def ofOwnField (rule : Rule) : List Phrase → Except SpecError Phrase
  | [name] => do
    typed (.field .this (← name.toToken rule .name)) [.only .message]
  | phrases => refuse rule (.childCount [1] phrases.length)

def ofFieldAccess (rule : Rule) : List Phrase → Except SpecError Phrase
  | [base, name] => do
    let (base, ty) ← base.toExpr rule
    typed (.field base (← name.toToken rule .name)) [ty]
  | phrases => refuse rule (.childCount [2] phrases.length)

def ofArrayAccess (rule : Rule) : List Phrase → Except SpecError Phrase
  | [base, position] => do
    let (base, baseType) ← base.toExpr rule
    let (position, positionType) ← position.toExpr rule
    typed (.index base position) [baseType, positionType]
  | phrases => refuse rule (.childCount [2] phrases.length)

def ofLiteral (rule : Rule) (kind : TokenKind) (read : String → Except SpecError Literal) :
    List Phrase → Except SpecError Phrase
  | [lexeme] => do
    typed (.literal (← read (← lexeme.toToken rule kind))) []
  | phrases => refuse rule (.childCount [1] phrases.length)

/-! ## Events, scopes and patterns -/

def ofTopicName (rule : Rule) : List Phrase → Except SpecError Phrase
  | [name] => do
    return topic (← name.toToken rule .topicName)
  | phrases => refuse rule (.childCount [1] phrases.length)

def ofGuard (rule : Rule) : List Phrase → Except SpecError Phrase
  | [condition] => do
    let (condition, ty) ← condition.toExpr rule
    Typing.expect .guard (.only .bool) ty condition
    return guard condition
  | phrases => refuse rule (.childCount [1] phrases.length)

def ofMessage (rule : Rule) : List Phrase → Except SpecError Phrase
  | [name] => do
    return message (← name.toTopic rule) none
  | [name, word] => do
    let name ← name.toTopic rule
    return message name (some (← word.toToken rule .name))
  | phrases => refuse rule (.childCount [1, 2] phrases.length)

/-- An event without guard takes every message of its topic. -/
def ofEvent (rule : Rule) : List Phrase → Except SpecError Phrase
  | [message name alias?] => .ok (event ⟨name, alias?, .vacuous⟩)
  | [message name alias?, condition] => do
    return event ⟨name, alias?, ← condition.toGuard rule⟩
  | _ => refuse rule .messageAndGuard

def ofDelimiter (rule : Rule) : List Phrase → Except SpecError Phrase
  | [phrase] => do
    return event (← phrase.toEvent rule)
  | phrases => refuse rule (.childCount [1] phrases.length)

def ofGlobalScope (rule : Rule) : List Phrase → Except SpecError Phrase
  | [] => .ok (scope .global)
  | phrases => refuse rule (.childCount [0] phrases.length)

def ofAfterUntil (rule : Rule) : List Phrase → Except SpecError Phrase
  | [activator] => do
    return scope (.after (← activator.toEvent rule))
  | [activator, terminator] => do
    let activator ← activator.toEvent rule
    return scope (.afterUntil activator (← terminator.toEvent rule))
  | phrases => refuse rule (.childCount [1, 2] phrases.length)

def ofUntil (rule : Rule) : List Phrase → Except SpecError Phrase
  | [terminator] => do
    return scope (.upTo (← terminator.toEvent rule))
  | phrases => refuse rule (.childCount [1] phrases.length)

def ofBound (rule : Rule) (convert : String → String → Except SpecError Double) :
    List Phrase → Except SpecError Phrase
  | [amount, unit] => do
    let amount ← amount.toToken rule .number
    return seconds (← convert amount (← unit.toToken rule .unit))
  | phrases => refuse rule (.childCount [2] phrases.length)

/-- The events of a pattern that has `count` of them, and the bound behind them. A pattern without
bound has unlimited time. -/
def eventsAndBound (rule : Rule) (count : Nat) (phrases : List Phrase) :
    Except SpecError (List Event × Double) := do
  let (events, bound?) :=
    if count < phrases.length then (phrases.dropLast, phrases.getLast?) else (phrases, none)
  let maxTime ←
    match bound? with
    | some bound => bound.toSeconds rule
    | none => pure (.infinity false)
  return (← events.mapM (toEvent rule), maxTime)

def ofUnaryPattern (rule : Rule) (make : Event → Double → Pattern) (phrases : List Phrase) :
    Except SpecError Phrase := do
  match ← eventsAndBound rule 1 phrases with
  | ([only], maxTime) => return pattern (make only maxTime)
  | (events, _) => refuse rule (.eventCount 1 events.length)

def ofBinaryPattern (rule : Rule) (make : Event → Event → Double → Pattern)
    (phrases : List Phrase) : Except SpecError Phrase := do
  match ← eventsAndBound rule 2 phrases with
  | ([first, second], maxTime) => return pattern (make first second maxTime)
  | (events, _) => refuse rule (.eventCount 2 events.length)

/-! ## Whole texts -/

def checkProperty (resolver : Option Resolver) (property : Property) : Except SpecError Unit := do
  property.checkBinding
  property.events.forM fun event =>
    (Typing.Environment.mk (some event.topic) property.aliases resolver).checkCondition event.guard

def checkAssumption (resolver : Option Resolver) (assumption : Assumption) :
    Except SpecError Unit := do
  assumption.checkBinding
  (Typing.Environment.mk (some assumption.topic) [] resolver).checkCondition assumption.guard

def ofProperty (resolver : Option Resolver) (rule : Rule) : List Phrase → Except SpecError Phrase
  | [scope s, pattern p] => do
    checkProperty resolver ⟨s, p⟩
    return property ⟨s, p⟩
  | [_, _] => refuse rule .scopeAndPattern
  | phrases => refuse rule (.childCount [2] phrases.length)

def ofAssumption (resolver : Option Resolver) (rule : Rule) :
    List Phrase → Except SpecError Phrase
  | [name, condition] => do
    let name ← name.toTopic rule
    let condition ← condition.toGuard rule
    checkAssumption resolver ⟨name, condition⟩
    return assumption ⟨name, condition⟩
  | phrases => refuse rule (.childCount [2] phrases.length)

def ofTopLevelCondition (resolver : Option Resolver) (rule : Rule) :
    List Phrase → Except SpecError Phrase
  | [condition] => do
    let (condition, ty) ← condition.toExpr rule
    condition.checkBinding
    (Typing.Environment.withResolver resolver).checkCondition condition
    return expr condition ty
  | phrases => refuse rule (.childCount [1] phrases.length)

/-- The phrase of a node from those of its children. -/
def ofNode (resolver : Option Resolver) (rule : Rule) (phrases : List Phrase) :
    Except SpecError Phrase :=
  match rule with
  | .property => ofProperty resolver rule phrases
  | .assumption => ofAssumption resolver rule phrases
  | .topLevelCondition => ofTopLevelCondition resolver rule phrases
  | .globalScope => ofGlobalScope rule phrases
  | .afterUntil => ofAfterUntil rule phrases
  | .untilScope => ofUntil rule phrases
  | .activator | .terminator => ofDelimiter rule phrases
  | .existence => ofUnaryPattern rule .existence phrases
  | .absence => ofUnaryPattern rule .absence phrases
  | .response => ofBinaryPattern rule .response phrases
  | .prevention => ofBinaryPattern rule .prevention phrases
  | .requirement => ofBinaryPattern rule .requirement phrases
  | .frequency => ofBound rule Literal.frequency phrases
  | .timeAmount => ofBound rule Literal.timeAmount phrases
  | .event => ofEvent rule phrases
  | .message => ofMessage rule phrases
  | .guard => ofGuard rule phrases
  | .topicName => ofTopicName rule phrases
  | .condition | .disjunction | .conjunction | .atomicCondition | .expr | .term | .factor =>
    ofChain rule phrases
  | .negation => ofNegation rule phrases
  | .negativeNumber => ofNegativeNumber rule phrases
  | .quantification => ofQuantification rule phrases
  | .functionCall => ofFunctionCall rule phrases
  | .enumLiteral => ofEnumLiteral rule phrases
  | .rangeLiteral => ofRangeLiteral rule phrases
  | .variableReference => ofVariable rule phrases
  | .ownField => ofOwnField rule phrases
  | .fieldAccess => ofFieldAccess rule phrases
  | .arrayAccess => ofArrayAccess rule phrases
  | .number => ofLiteral rule .number Literal.ofNumber phrases
  | .boolean => ofLiteral rule .boolean (fun lexeme => liftM (Literal.ofBoolean lexeme)) phrases
  | .string => ofLiteral rule .string (fun lexeme => liftM (Literal.ofQuoted lexeme)) phrases
  | .numberConstant =>
    ofLiteral rule .constant (fun lexeme => liftM (Literal.ofConstant lexeme)) phrases

mutual
/-- The phrase of a tree. Of several faults, the one of the first child counts, and that of a
child before that of its parent. -/
def ofTree (resolver : Option Resolver) : SyntaxTree → Except SpecError Phrase
  | .leaf t => .ok (token t)
  | .node rule children => do
    ofNode resolver rule (← ofTrees resolver children)

def ofTrees (resolver : Option Resolver) : List SyntaxTree → Except SpecError (List Phrase)
  | [] => .ok []
  | tree :: trees => do
    return (← ofTree resolver tree) :: (← ofTrees resolver trees)
end

end Phrase

namespace SyntaxTree

/-- The property of a tree. -/
def toProperty (resolver : Option Resolver) (tree : SyntaxTree) : Except SpecError Property := do
  match ← Phrase.ofTree resolver tree with
  | .property property => return property
  | other => Phrase.refuse .property (.sort .property other.sense)

/-- The assumption of a tree. -/
def toAssumption (resolver : Option Resolver) (tree : SyntaxTree) :
    Except SpecError Assumption := do
  match ← Phrase.ofTree resolver tree with
  | .assumption assumption => return assumption
  | other => Phrase.refuse .assumption (.sort .assumption other.sense)

/-- The condition of a tree. -/
def toCondition (resolver : Option Resolver) (tree : SyntaxTree) : Except SpecError Expr := do
  return (← (← Phrase.ofTree resolver tree).toExpr .topLevelCondition).1

end SyntaxTree

/-! ## Texts -/

def readTree (form : Form) (text : String) : Except SpecError SyntaxTree :=
  (SyntaxTree.ofText form text).mapError .malformed

def Property.ofText (resolver : Option Resolver) (text : String) : Except SpecError Property := do
  (← readTree .property text).toProperty resolver

def Assumption.ofText (resolver : Option Resolver) (text : String) :
    Except SpecError Assumption := do
  (← readTree .assumption text).toAssumption resolver

def Expr.ofText (resolver : Option Resolver) (text : String) : Except SpecError Expr := do
  (← readTree .predicate text).toCondition resolver

end TopicSpec
