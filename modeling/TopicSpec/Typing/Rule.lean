import TopicSpec.Error

/-! # The local typing rule

The type of an expression from the types of its direct subexpressions. References and fields get
the widest type here; an environment narrows them. -/

namespace TopicSpec.Typing
set_option autoImplicit false

/-- What a function takes and gives. -/
structure Signature where
  argument : Kinds
  result : Kinds

/-- The functions that conditions may call. -/
def signature? (function : String) : Option Signature :=
  let number := Kinds.only .number
  if function = "len" then some ⟨(Kinds.only .array).union (.only .string), number⟩
  else if ["abs", "sqrt", "floor", "ceil", "log", "sin", "cos", "tan"].contains function then
    some ⟨number, number⟩
  else if ["int", "float"].contains function then some ⟨.scalar, number⟩
  else if function = "str" then some ⟨.scalar, .only .string⟩
  else if function = "bool" then some ⟨.scalar, .only .bool⟩
  else none

/-- Accepts a type that has some of the kinds. -/
def expect (role : Role) (kinds : Kinds) (ty : Ty) (e : Expr) : Except TypeError Unit :=
  if ty.kinds.admits kinds then .ok () else .error (.mismatch role kinds ty.kinds e)

theorem expect_eq_ok_iff {role : Role} {kinds : Kinds} {ty : Ty} {e : Expr} :
    expect role kinds ty e = .ok () ↔ ty.kinds.admits kinds = true := by
  unfold expect
  split <;> simp_all

def literalKind : LiteralValue → Kind
  | .int _ | .double _ => .number
  | .bool _ => .bool
  | .text _ => .string

/-- The kinds of the members of a set. -/
def memberKinds (e : Expr) : List Ty → Except TypeError Kinds
  | [] => .ok .none
  | ty :: types => do
    expect .setMember .scalar ty e
    return (ty.kinds.intersect .scalar).union (← memberKinds e types)

def unaryType (op : UnaryOp) (operand : Ty) (e : Expr) : Except TypeError Ty :=
  match op with
  | .not => do
    expect .negated (.only .bool) operand e
    return .only .bool
  | .neg => do
    expect .negative (.only .number) operand e
    return .only .number

/-- Both operands are of one kind, which gives the result. -/
def operatorType (op : BinaryOp) (operands result : Kind) (left right : Ty) (e : Expr) :
    Except TypeError Ty := do
  expect (.leftOperand op) (.only operands) left e
  expect (.rightOperand op) (.only operands) right e
  return .only result

def binaryType (op : BinaryOp) (left right : Ty) (e : Expr) : Except TypeError Ty :=
  match op with
  | .implies | .iff | .or | .and => operatorType op .bool .bool left right e
  | .add | .sub | .mul | .div | .pow => operatorType op .number .number left right e
  | .lt | .le | .gt | .ge => operatorType op .number .bool left right e
  | .eq | .ne =>
    if left.kinds.admits right.kinds then .ok (.only .bool)
    else .error (.incomparable left.kinds right.kinds e)
  | .mem => do
    expect (.rightOperand op) (.only .array) right e
    expect (.leftOperand op) right.elements left e
    return .only .bool

def nodeType (e : Expr) (children : List Ty) : Except TypeError Ty :=
  match e, children with
  | .vacuous, [] => .ok (.only .bool)
  | .literal l, [] => .ok (.only (literalKind l.value))
  | .var _, [] => .ok .any
  | .this, [] => .ok (.only .message)
  | .field _ _, [base] => do
    expect .fieldBase (.only .message) base e
    return .any
  | .index _ _, [base, position] => do
    expect .indexed (.only .array) base e
    expect .arrayIndex (.only .number) position e
    return .of base.elements
  | .call function _, [argument] =>
    match signature? function with
    | none => .error (.unknownFunction function)
    | some signature => do
      expect (.argument function) signature.argument argument e
      return .of signature.result
  | .set _, members => do
    return .array (← memberKinds e members)
  | .range _ _ _ _, [lower, upper] => do
    expect .lowerBound (.only .number) lower e
    expect .upperBound (.only .number) upper e
    return .array (.only .number)
  | .unary op _, [operand] => unaryType op operand e
  | .binary op _ _, [left, right] => binaryType op left right e
  | .quantified _ _ _ _, [domain, body] => do
    expect .domain (.only .array) domain e
    expect .body (.only .bool) body e
    return .only .bool
  | _, _ => .error (.operandCount children.length e)

end TopicSpec.Typing
