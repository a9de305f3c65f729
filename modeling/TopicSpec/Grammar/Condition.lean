import TopicSpec.Scan.Lexeme
import TopicSpec.SyntaxTree

/-! # Conditions

The grammar of conditions, comparisons, arithmetic, operands and references.

The productions refer to each other in a circle, and every way around the circle reads at least
one character. A production is therefore written over the productions it leads back to
(`Inner`), and the circle is closed level by level, with as many levels as the text has
characters.
-/

namespace TopicSpec.Grammar
open Scan
set_option autoImplicit false

/-- The productions that occur inside themselves. -/
structure Inner where
  condition : Scan SyntaxTree
  logicAtom : Scan SyntaxTree
  expr : Scan SyntaxTree
  operand : Scan SyntaxTree

/-! ## Chains of operators -/

/-- What has been read of a chain: its tree, and whether an operator stands in it. -/
structure Front where
  tree : SyntaxTree
  linked : Bool

/-- The tree of a whole chain: a lone operand is wrapped. -/
def Front.close (rule : Rule) (front : Front) : SyntaxTree :=
  if front.linked then front.tree else .node rule [front.tree]

/-- One further `operator operand` of a chain, which takes all that stands before it as its left
operand. -/
def chainLink (rule : Rule) (operand : Scan SyntaxTree) (operator : Scan String) (front : Front) :
    Scan (Option Front) := do
  gap
  match ← optional operator with
  | none => return none
  | some op =>
    gap
    let right ← require .operand operand
    return some ⟨.node rule [front.tree, .leaf ⟨.operator, op⟩, right], true⟩

/-- `operand { operator operand }` -/
def chain (rule : Rule) (operand : Scan SyntaxTree) (operator : Scan String) :
    Scan SyntaxTree := do
  let first ← operand
  let front ← repeated (chainLink rule operand operator) ⟨first, false⟩
  return front.close rule

/-! ## Operands -/

/-- `"-" operand` -/
def negativeNumber (inner : Inner) : Scan SyntaxTree := do
  literal "-"
  gap
  let operand ← commit inner.operand
  return .node .negativeNumber [.leaf ⟨.operator, "-"⟩, operand]

/-- `"(" condition ")"`, which leaves the tree of the condition alone. -/
def parenthesized (inner : Inner) : Scan SyntaxTree := do
  literal "("
  gap
  let condition ← commit inner.condition
  gap
  require .closingParenthesis (literal ")")
  return condition

def numberConstant : Scan SyntaxTree := do
  let word ← oneKeyword "PI" ["INF", "NAN"]
  return .node .numberConstant [.leaf ⟨.constant, word⟩]

def boolean : Scan SyntaxTree := do
  let word ← oneKeyword "True" ["False"]
  return .node .boolean [.leaf ⟨.boolean, word⟩]

def string : Scan SyntaxTree := do
  let lexeme ← quoted
  return .node .string [.token .string lexeme]

def number : Scan SyntaxTree := do
  let lexeme ← Scan.number
  return .node .number [.token .number lexeme]

def furtherMember (inner : Inner) : Scan SyntaxTree := do
  gap
  literal ","
  gap
  inner.expr

/-- `expr { "," expr }` -/
def members (inner : Inner) : Scan (List SyntaxTree) := do
  gap
  let first ← inner.expr
  let more ← many (optional (furtherMember inner))
  return first :: more

/-- `"{" expr { "," expr } "}"` -/
def enumLiteral (inner : Inner) : Scan SyntaxTree := do
  literal "\x7b"
  gap
  let members ← require .setMember (members inner)
  gap
  require .closingBrace (literal "\x7d")
  return .node .enumLiteral members

/-- The end of a range: `]!`, unless the exclamation mark belongs to `!=`, or `]`. -/
def rangeEnd : Scan String := do
  require .closingBracket (literal "]")
  if ← peek fun s => (dropWord ['!'] s).isSome && (dropWord ['!', '='] s).isNone then
    literal "!"
    return "]!"
  else
    return "]"

/-- `("![" | "[") expr ("to" | ",") expr ("]!" | "]")` -/
def rangeLiteral (inner : Inner) : Scan SyntaxTree := do
  let left ← oneMark "![" ["["]
  gap
  let lower ← require .lowerBound inner.expr
  gap
  require .boundSeparator (orElse (keyword "to") (literal ","))
  gap
  let upper ← require .upperBound inner.expr
  gap
  let right ← rangeEnd
  return .node .rangeLiteral
    [.leaf ⟨.leftDelimiter, left⟩, lower, upper, .leaf ⟨.rightDelimiter, right⟩]

/-- `NAME "(" condition ")"`, with exactly one argument. -/
def functionCall (inner : Inner) : Scan SyntaxTree := do
  let function ← name
  gap
  literal "("
  gap
  let argument ← require .argument inner.condition
  gap
  require .endOfArgument (literal ")")
  return .node .functionCall [.token .name function, argument]

/-! ## References -/

/-- `"@" IDENTIFIER` -/
def variableReference : Scan SyntaxTree := do
  literal "@"
  let name ← require .variableName identifier
  return .node .variableReference [.token .name name]

/-- A name alone is a field of the message at hand. -/
def ownField : Scan SyntaxTree := do
  let name ← name
  return .node .ownField [.token .name name]

/-- `"[" expr "]"` -/
def index (inner : Inner) : Scan SyntaxTree := do
  literal "["
  gap
  let index ← require .index inner.expr
  gap
  require .closingBracket (literal "]")
  return index

/-- What has been read of a reference: its tree, and whether it ends with an index. -/
structure Stem where
  tree : SyntaxTree
  indexed : Bool

/-- One further `"." NAME` or `"[" expr "]"` of a reference; an element is not indexed again. -/
def referenceStep (inner : Inner) (stem : Stem) : Scan (Option Stem) := do
  match ← optional (literal ".") with
  | some () =>
    let field ← require .fieldName name
    return some ⟨.node .fieldAccess [stem.tree, .token .name field], false⟩
  | none =>
    if stem.indexed then return none
    else
      match ← optional (index inner) with
      | some position => return some ⟨.node .arrayAccess [stem.tree, position], true⟩
      | none => return none

/-- `("@" IDENTIFIER | NAME) { "." NAME | "[" expr "]" }`, where no gap stands inside. -/
def reference (inner : Inner) : Scan SyntaxTree := do
  let base ← orElse variableReference ownField
  let stem ← repeated (referenceStep inner) ⟨base, false⟩
  return stem.tree

/-! ## The levels of precedence -/

def operand (inner : Inner) : Scan SyntaxTree :=
  expecting .value <|
    firstOf (negativeNumber inner)
      [parenthesized inner, numberConstant, boolean, string, number, enumLiteral inner,
       rangeLiteral inner, functionCall inner, reference inner]

/-- `*` or `/`, but not the `*` of `**`. -/
def productOperator : Scan String := fun s =>
  if (dropWord ['*', '*'] s).isSome then .reject false [] s else oneMark "*" ["/"] s

/-- `operand { "**" operand }` -/
def factor (inner : Inner) : Scan SyntaxTree := chain .factor (operand inner) (oneMark "**" [])

/-- `factor { ("*" | "/") factor }` -/
def term (inner : Inner) : Scan SyntaxTree := chain .term (factor inner) productOperator

/-- `term { ("+" | "-") term }` -/
def expr (inner : Inner) : Scan SyntaxTree := chain .expr (term inner) (oneMark "+" ["-"])

def comparison : Scan String :=
  orElse (oneMark "!=" ["<=", ">=", "=", "<", ">"]) (oneKeyword "in" [])

/-- `expr [comparison expr]` -/
def atomicCondition (inner : Inner) : Scan SyntaxTree := do
  let left ← expr inner
  gap
  match ← optional comparison with
  | none => return .node .atomicCondition [left]
  | some op =>
    gap
    let right ← require .comparand (expr inner)
    return .node .atomicCondition [left, .leaf ⟨.operator, op⟩, right]

/-- `"not" logicAtom` -/
def negation (inner : Inner) : Scan SyntaxTree := do
  keyword "not"
  gap
  let operand ← require .negated inner.logicAtom
  return .node .negation [.leaf ⟨.operator, "not"⟩, operand]

/-- `negation | atomicCondition` -/
def logicAtom (inner : Inner) : Scan SyntaxTree := orElse (negation inner) (atomicCondition inner)

/-- `logicAtom { "and" logicAtom }` -/
def conjunction (inner : Inner) : Scan SyntaxTree :=
  chain .conjunction (logicAtom inner) (oneKeyword "and" [])

/-- `conjunction { "or" conjunction }` -/
def disjunction (inner : Inner) : Scan SyntaxTree :=
  chain .disjunction (conjunction inner) (oneKeyword "or" [])

/-- `("forall" | "exists") NAME "in" operand ":" condition` -/
def quantification (inner : Inner) : Scan SyntaxTree := do
  let quantifier ← oneKeyword "forall" ["exists"]
  gap
  let bound ← require .quantified name
  gap
  require .keywordIn (keyword "in")
  gap
  let domain ← require .domain inner.operand
  gap
  require .colon (literal ":")
  gap
  let body ← commit inner.condition
  return .node .quantification
    [.leaf ⟨.quantifier, quantifier⟩, .token .name bound, domain, body]

/-- `quantification | disjunction { ("implies" | "iff") disjunction }` -/
def condition (inner : Inner) : Scan SyntaxTree := do
  match ← optional (quantification inner) with
  | some quantification => return .node .condition [quantification]
  | none => chain .condition (disjunction inner) (oneKeyword "implies" ["iff"])

/-! ## Closing the circle -/

/-- The productions with `n` levels of nesting. -/
def nested : Nat → Inner
  | 0 => ⟨fail, fail, fail, fail⟩
  | n + 1 =>
    { condition := fun s => condition (nested n) s
      logicAtom := fun s => logicAtom (nested n) s
      expr := fun s => expr (nested n) s
      operand := fun s => operand (nested n) s }

/-- A condition at the front of a text. A text cannot nest deeper than it is long. -/
def anyCondition : Scan SyntaxTree := fun s => (nested (s.length + 1)).condition s

end TopicSpec.Grammar
