import TopicSpec.Double.Basic

/-! # Literals

A literal keeps the lexeme it was read from beside its value. -/

namespace TopicSpec
set_option autoImplicit false

inductive LiteralValue where
  | int (n : Int)
  | double (x : Double)
  | bool (b : Bool)
  | text (s : String)
  deriving DecidableEq

structure Literal where
  lexeme : String
  value : LiteralValue
  deriving DecidableEq

namespace Literal

/-- The bound on the magnitude of integers: they have 128 bits, one of them for the sign. -/
abbrev integerLimit : Nat := Nat.pow 2 127

/-- The value as a double, if it is a number. -/
def toDouble? (literal : Literal) : Option Double :=
  match literal.value with
  | .int n => some (.ofInt n)
  | .double x => some x
  | _ => none

/-- The literal with a minus sign before it; none for the least integer and for what is no
number. -/
def negate? (literal : Literal) : Option Literal :=
  let lexeme := "-" ++ literal.lexeme
  match literal.value with
  | .int n => if n = -(integerLimit : Int) then none else some ⟨lexeme, .int (-n)⟩
  | .double x => some ⟨lexeme, .double x.neg⟩
  | _ => none

theorem negate?_isSome_iff (literal : Literal) :
    literal.negate?.isSome = true ↔
      literal.toDouble?.isSome = true ∧ literal.value ≠ .int (-(integerLimit : Int)) := by
  obtain ⟨lexeme, value⟩ := literal
  cases value with
  | int n => by_cases h : n = -(integerLimit : Int) <;> simp [negate?, toDouble?, h]
  | _ => simp [negate?, toDouble?]

end Literal
end TopicSpec
