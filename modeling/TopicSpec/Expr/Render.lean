import TopicSpec.Expr.Basic

/-! # The text of an expression

Operands of operators and bodies of quantifiers stand in parentheses. -/

namespace TopicSpec.Expr
set_option autoImplicit false

/-- The text of a field; one of the message at hand is named alone. -/
def renderField (base : Expr) (baseText name : String) : String :=
  match base with
  | this => name
  | _ => baseText ++ "." ++ name

mutual
def render : Expr → String
  | vacuous => "True"
  | literal l => l.lexeme
  | var name => "@" ++ name
  | this => ""
  | field base name => renderField base base.render name
  | index base position => base.render ++ "[" ++ position.render ++ "]"
  | call function argument => function ++ "(" ++ argument.render ++ ")"
  | set members => "\x7b" ++ ", ".intercalate (renderAll members) ++ "\x7d"
  | range lower upper excludeLower excludeUpper =>
    (if excludeLower then "![" else "[") ++ lower.render ++ " to " ++ upper.render ++
      (if excludeUpper then "]!" else "]")
  | unary .not operand => "not (" ++ operand.render ++ ")"
  | unary .neg operand => "-(" ++ operand.render ++ ")"
  | binary op left right =>
    "(" ++ left.render ++ ") " ++ op.symbol ++ " (" ++ right.render ++ ")"
  | quantified quantifier bound domain body =>
    quantifier.word ++ " " ++ bound ++ " in " ++ domain.render ++ ": (" ++ body.render ++ ")"

def renderAll : List Expr → List String
  | [] => []
  | e :: es => e.render :: renderAll es
end

theorem renderAll_eq_map (es : List Expr) : renderAll es = es.map render := by
  induction es with
  | nil => simp [renderAll]
  | cons e es ih => simp [renderAll, ih]

end TopicSpec.Expr
