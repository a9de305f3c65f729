import TopicSpec.Double.Decimal
import TopicSpec.Error

/-! # Reading literals

The values of lexemes, and of bounds with their units. -/

namespace TopicSpec.Literal
set_option autoImplicit false

/-- Digits alone are an integer, which has to be below the limit; any other number is a double. -/
def ofNumber (lexeme : String) : Except SpecError Literal :=
  let chars := lexeme.toList
  if !chars.isEmpty && chars.all Char.isDigit then
    let n := Double.ofDigits chars
    if n < integerLimit then .ok ⟨lexeme, .int n⟩
    else .error (.binding (.integerOutOfRange lexeme))
  else
    match Double.ofText? chars with
    | some x => .ok ⟨lexeme, .double x⟩
    | none => .error (.shape ⟨.number, .number lexeme⟩)

def ofBoolean (lexeme : String) : Except ShapeError Literal :=
  if lexeme = "True" then .ok ⟨lexeme, .bool true⟩
  else if lexeme = "False" then .ok ⟨lexeme, .bool false⟩
  else .error ⟨.boolean, .boolean lexeme⟩

/-- The lexeme keeps its quotes, the value does not. -/
def ofQuoted (lexeme : String) : Except ShapeError Literal :=
  match lexeme.toList with
  | '"' :: rest =>
    match rest.reverse with
    | '"' :: inner => .ok ⟨lexeme, .text (String.ofList inner.reverse)⟩
    | _ => .error ⟨.string, .string lexeme⟩
  | _ => .error ⟨.string, .string lexeme⟩

def ofConstant (lexeme : String) : Except ShapeError Literal :=
  if lexeme = "PI" then .ok ⟨lexeme, .double .pi⟩
  else if lexeme = "INF" then .ok ⟨lexeme, .double (.infinity false)⟩
  else if lexeme = "NAN" then .ok ⟨lexeme, .double .nan⟩
  else .error ⟨.numberConstant, .constant lexeme⟩

/-- The number of a bound, which the given production is made of. -/
def amount (rule : Rule) (lexeme : String) : Except SpecError Double := do
  match (← ofNumber lexeme).toDouble? with
  | some x => return x
  | none => throw (.shape ⟨rule, .amount lexeme⟩)

def timeAmount (lexeme unit : String) : Except SpecError Double := do
  let n ← amount .timeAmount lexeme
  if unit = "ms" then return n.divideBy 1000
  else if unit = "s" then return n
  else throw (.shape ⟨.timeAmount, .timeUnit unit⟩)

def frequency (lexeme unit : String) : Except SpecError Double := do
  let n ← amount .frequency lexeme
  if unit ≠ "hz" then throw (.shape ⟨.frequency, .frequencyUnit unit⟩)
  else if n.isPositive then return n.reciprocal
  else throw (.binding (.invalidFrequency lexeme unit))

end TopicSpec.Literal
