/-! # Syntax trees

A tree has one node for each production of the grammar and one leaf for each lexeme that carries
meaning. Punctuation and the fixed words of a production leave no trace. -/

namespace TopicSpec
set_option autoImplicit false

/-- The productions of the grammar. -/
inductive Rule where
  | property
  | assumption
  | topLevelCondition
  | globalScope
  | afterUntil
  | untilScope
  | activator
  | terminator
  | existence
  | absence
  | response
  | prevention
  | requirement
  | event
  | message
  | guard
  | condition
  | disjunction
  | conjunction
  | negation
  | quantification
  | atomicCondition
  | functionCall
  | expr
  | term
  | factor
  | negativeNumber
  | numberConstant
  | enumLiteral
  | rangeLiteral
  | variableReference
  | ownField
  | fieldAccess
  | arrayAccess
  | frequency
  | timeAmount
  | boolean
  | string
  | number
  | topicName
  deriving DecidableEq

namespace Rule

def all : List Rule :=
  [property, assumption, topLevelCondition, globalScope, afterUntil, untilScope, activator,
   terminator, existence, absence, response, prevention, requirement, event, message, guard,
   condition, disjunction, conjunction, negation, quantification, atomicCondition, functionCall,
   expr, term, factor, negativeNumber, numberConstant, enumLiteral, rangeLiteral, variableReference,
   ownField, fieldAccess, arrayAccess, frequency, timeAmount, boolean, string, number,
   topicName]

/-- The name under which a production is shown. -/
def name : Rule → String
  | property => "hpl_property"
  | assumption => "hpl_assumption"
  | topLevelCondition => "top_level_condition"
  | globalScope => "global_scope"
  | afterUntil => "after_until"
  | untilScope => "until"
  | activator => "activator"
  | terminator => "terminator"
  | existence => "existence"
  | absence => "absence"
  | response => "response"
  | prevention => "prevention"
  | requirement => "requirement"
  | event => "event"
  | message => "message"
  | guard => "predicate"
  | condition => "condition"
  | disjunction => "disjunction"
  | conjunction => "conjunction"
  | negation => "negation"
  | quantification => "quantification"
  | atomicCondition => "atomic_condition"
  | functionCall => "function_call"
  | expr => "expr"
  | term => "term"
  | factor => "factor"
  | negativeNumber => "negative_number"
  | numberConstant => "number_constant"
  | enumLiteral => "enum_literal"
  | rangeLiteral => "range_literal"
  | variableReference => "variable"
  | ownField => "own_field"
  | fieldAccess => "field_access"
  | arrayAccess => "array_access"
  | frequency => "frequency"
  | timeAmount => "time_amount"
  | boolean => "boolean"
  | string => "string"
  | number => "number"
  | topicName => "ros_name"

/-- The production shown under a name. -/
def ofName? (text : String) : Option Rule := all.find? (·.name == text)

end Rule

/-- The sorts of lexemes that appear in a tree. -/
inductive TokenKind where
  | name
  | topicName
  | operator
  | quantifier
  | number
  | string
  | boolean
  | constant
  | unit
  | leftDelimiter
  | rightDelimiter
  deriving DecidableEq

namespace TokenKind

def all : List TokenKind :=
  [name, topicName, operator, quantifier, number, string, boolean, constant, unit, leftDelimiter,
   rightDelimiter]

/-- The word under which a sort of lexeme is shown. -/
def label : TokenKind → String
  | name => "Name"
  | topicName => "RosName"
  | operator => "Operator"
  | quantifier => "Quantifier"
  | number => "Number"
  | string => "String"
  | boolean => "Boolean"
  | constant => "Constant"
  | unit => "Unit"
  | leftDelimiter => "LeftDelimiter"
  | rightDelimiter => "RightDelimiter"

def ofLabel? (text : String) : Option TokenKind := all.find? (·.label == text)

end TokenKind

/-- A lexeme, as it stands in the text. -/
structure Token where
  kind : TokenKind
  text : String
  deriving DecidableEq

inductive SyntaxTree where
  | leaf (token : Token)
  | node (rule : Rule) (children : List SyntaxTree)

namespace SyntaxTree

def token (kind : TokenKind) (text : List Char) : SyntaxTree := leaf ⟨kind, String.ofList text⟩

/-- An entry of the preorder listing of a tree. -/
inductive Entry where
  | node (depth : Nat) (rule : Rule) (childCount : Nat)
  | leaf (depth : Nat) (token : Token)
  deriving DecidableEq

mutual
/-- The nodes and leaves of a tree, each before its children, with their depths. -/
def preorder (depth : Nat) : SyntaxTree → List Entry
  | leaf token => [.leaf depth token]
  | node rule children => .node depth rule children.length :: preorderAll (depth + 1) children

def preorderAll (depth : Nat) : List SyntaxTree → List Entry
  | [] => []
  | tree :: trees => preorder depth tree ++ preorderAll depth trees
end

end SyntaxTree
end TopicSpec
