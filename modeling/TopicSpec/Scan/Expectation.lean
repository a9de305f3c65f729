/-! # Expectations

What a reader had hoped to find at the place where it stopped, and the words for it. -/

namespace TopicSpec.Scan
set_option autoImplicit false

inductive Expectation where
  | scope
  | colonAfterScope
  | pattern
  | topic
  | guard
  | patternKeyword
  | boundAmount
  | boundUnit
  | aliasName
  | guardCondition
  | nameSegment
  | closingQuote
  | negated
  | quantified
  | keywordIn
  | domain
  | colon
  | comparand
  | operand
  | value
  | closingParenthesis
  | closingBrace
  | closingBracket
  | setMember
  | lowerBound
  | boundSeparator
  | upperBound
  | argument
  | endOfArgument
  | variableName
  | fieldName
  | index
  deriving DecidableEq

namespace Expectation

def describe : Expectation → String
  | scope => "scope ('globally', 'after', 'until')"
  | colonAfterScope => "':' after scope"
  | pattern => "pattern"
  | topic => "topic name"
  | guard => "'\x7b' condition '\x7d'"
  | patternKeyword => "'causes', 'forbids' or 'requires'"
  | boundAmount => "duration after 'within'"
  | boundUnit => "time unit (ms|s) or frequency unit (hz)"
  | aliasName => "alias after 'as'"
  | guardCondition => "condition inside '\x7b \x7d'"
  | nameSegment => "name segment after '/'"
  | closingQuote => "closing quote"
  | negated => "condition after 'not'"
  | quantified => "quantified variable name"
  | keywordIn => "'in'"
  | domain => "quantifier domain"
  | colon => "':'"
  | comparand => "right-hand side of comparison"
  | operand => "operand"
  | value => "value"
  | closingParenthesis => "')'"
  | closingBrace => "'\x7d'"
  | closingBracket => "']'"
  | setMember => "set member"
  | lowerBound => "range lower bound"
  | boundSeparator => "'to' or ','"
  | upperBound => "range upper bound"
  | argument => "function argument"
  | endOfArgument => "')' after the single function argument"
  | variableName => "variable name after '@'"
  | fieldName => "field name after '.'"
  | index => "array index"

/-- The words for a list of expectations, from the innermost to the outermost; nothing for an
empty list. -/
def describeAll : List Expectation → String
  | [] => ""
  | expected => "expected " ++ ", ".intercalate (expected.map describe)

end Expectation
end TopicSpec.Scan
