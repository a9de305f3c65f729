import TopicSpec.Expr.Render

/-! # The characters of a text

The text of an expression before a further one, character by character up to the texts of its
subexpressions. -/

namespace TopicSpec.Expr
set_option autoImplicit false

variable (s : List Char)

/-- The characters of the text of an expression. -/
def chars (e : Expr) : List Char := e.render.toList

attribute [local simp] chars render renderField

theorem chars_var (name : String) : (var name).chars ++ s = '@' :: (name.toList ++ s) := by
  simp

theorem chars_ownField (name : String) : (field this name).chars = name.toList := by
  simp

theorem chars_field {base : Expr} (h : base ≠ this) (name : String) :
    (field base name).chars ++ s = base.chars ++ '.' :: (name.toList ++ s) := by
  cases base with
  | this => exact absurd rfl h
  | _ => simp

theorem chars_index (base position : Expr) :
    (index base position).chars ++ s = base.chars ++ '[' :: (position.chars ++ ']' :: s) := by
  simp

theorem chars_call (function : String) (argument : Expr) :
    (call function argument).chars ++ s =
      function.toList ++ '(' :: (argument.chars ++ ')' :: s) := by
  simp

theorem intercalate_cons (separator first : List Char) (more : List (List Char)) :
    List.intercalate separator (first :: more) =
      first ++ more.flatMap fun next => separator ++ next := by
  induction more generalizing first with
  | nil => simp [List.intercalate]
  | cons next more ih =>
    have hMore := ih next
    simp only [List.intercalate, List.intersperse_cons_cons, List.flatten_cons] at hMore ⊢
    rw [hMore]
    simp

theorem chars_set (first : Expr) (more : List Expr) :
    (set (first :: more)).chars ++ s =
      '\x7b' :: (first.chars ++ (more.flatMap (fun m => ',' :: ' ' :: m.chars) ++ '\x7d' :: s)) := by
  simp [renderAll_eq_map, intercalate_cons, List.flatMap_map]

/-- The marks before and behind the bounds of a range. -/
def leftMark (excludeLower : Bool) : String := if excludeLower then "![" else "["

def rightMark (excludeUpper : Bool) : String := if excludeUpper then "]!" else "]"

theorem chars_range (lower upper : Expr) (excludeLower excludeUpper : Bool) :
    (range lower upper excludeLower excludeUpper).chars ++ s =
      (leftMark excludeLower).toList ++ (lower.chars ++ ' ' :: 't' :: 'o' :: ' ' ::
        (upper.chars ++ ((rightMark excludeUpper).toList ++ s))) := by
  simp [leftMark, rightMark]

theorem chars_not (operand : Expr) :
    (unary .not operand).chars ++ s =
      'n' :: 'o' :: 't' :: ' ' :: '(' :: (operand.chars ++ ')' :: s) := by
  simp

theorem chars_neg (operand : Expr) :
    (unary .neg operand).chars ++ s = '-' :: '(' :: (operand.chars ++ ')' :: s) := by
  simp

theorem chars_binary (op : BinaryOp) (left right : Expr) :
    (binary op left right).chars ++ s = '(' :: (left.chars ++ ')' :: ' ' ::
      (op.symbol.toList ++ ' ' :: '(' :: (right.chars ++ ')' :: s))) := by
  simp

theorem chars_quantified (quantifier : Quantifier) (bound : String) (domain body : Expr) :
    (quantified quantifier bound domain body).chars ++ s =
      quantifier.word.toList ++ ' ' :: (bound.toList ++ ' ' :: 'i' :: 'n' :: ' ' ::
        (domain.chars ++ ':' :: ' ' :: '(' :: (body.chars ++ ')' :: s))) := by
  simp

/-! ## Lengths -/

theorem length_field {base : Expr} (h : base ≠ this) (name : String) :
    (field base name).chars.length = base.chars.length + name.toList.length + 1 := by
  have hText := congrArg List.length (chars_field [] h name)
  simp only [List.length_append, List.length_cons, List.length_nil] at hText
  omega

theorem length_index (base position : Expr) :
    (index base position).chars.length = base.chars.length + position.chars.length + 2 := by
  have hText := congrArg List.length (chars_index [] base position)
  simp only [List.length_append, List.length_cons, List.length_nil] at hText
  omega

theorem length_call (function : String) (argument : Expr) :
    (call function argument).chars.length = function.toList.length + argument.chars.length + 2 := by
  have hText := congrArg List.length (chars_call [] function argument)
  simp only [List.length_append, List.length_cons, List.length_nil] at hText
  omega

theorem length_range (lower upper : Expr) (excludeLower excludeUpper : Bool) :
    (range lower upper excludeLower excludeUpper).chars.length = lower.chars.length +
      upper.chars.length + 4 + (leftMark excludeLower).toList.length +
        (rightMark excludeUpper).toList.length := by
  have hText := congrArg List.length (chars_range [] lower upper excludeLower excludeUpper)
  simp only [List.length_append, List.length_cons, List.length_nil] at hText
  omega

theorem length_not (operand : Expr) :
    (unary .not operand).chars.length = operand.chars.length + 6 := by
  have hText := congrArg List.length (chars_not [] operand)
  simp only [List.length_append, List.length_cons, List.length_nil] at hText
  omega

theorem length_neg (operand : Expr) :
    (unary .neg operand).chars.length = operand.chars.length + 3 := by
  have hText := congrArg List.length (chars_neg [] operand)
  simp only [List.length_append, List.length_cons, List.length_nil] at hText
  omega

theorem length_binary (op : BinaryOp) (left right : Expr) :
    (binary op left right).chars.length =
      left.chars.length + right.chars.length + op.symbol.toList.length + 6 := by
  have hText := congrArg List.length (chars_binary [] op left right)
  simp only [List.length_append, List.length_cons, List.length_nil] at hText
  omega

theorem length_quantified (quantifier : Quantifier) (bound : String) (domain body : Expr) :
    (quantified quantifier bound domain body).chars.length = domain.chars.length +
      body.chars.length + quantifier.word.toList.length + bound.toList.length + 9 := by
  have hText := congrArg List.length (chars_quantified [] quantifier bound domain body)
  simp only [List.length_append, List.length_cons, List.length_nil] at hText
  omega

end TopicSpec.Expr
