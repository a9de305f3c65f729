import TopicSpec.Expr.Basic

/-! # Induction on expressions

A property of all expressions follows from its inheritance by each form from the direct
subexpressions, the members of a set included. -/

namespace TopicSpec.Expr
set_option autoImplicit false

@[induction_eliminator]
theorem induct {motive : Expr → Prop}
    (vacuous : motive vacuous)
    (literal : ∀ l, motive (literal l))
    (var : ∀ name, motive (var name))
    (this : motive this)
    (field : ∀ base name, motive base → motive (field base name))
    (index : ∀ base position, motive base → motive position → motive (index base position))
    (call : ∀ function argument, motive argument → motive (call function argument))
    (set : ∀ members, (∀ m ∈ members, motive m) → motive (set members))
    (range : ∀ lower upper excludeLower excludeUpper, motive lower → motive upper →
      motive (range lower upper excludeLower excludeUpper))
    (unary : ∀ op operand, motive operand → motive (unary op operand))
    (binary : ∀ op left right, motive left → motive right → motive (binary op left right))
    (quantified : ∀ quantifier bound domain body, motive domain → motive body →
      motive (quantified quantifier bound domain body))
    (e : Expr) : motive e := by
  refine @Expr.rec motive (fun members => ∀ m ∈ members, motive m)
    vacuous literal var this field index call set range unary binary quantified ?_ ?_ e
  · simp
  · intro head tail hHead hTail m hm
    rcases List.mem_cons.mp hm with rfl | hm
    · exact hHead
    · exact hTail m hm

theorem freeOccurrencesAll_eq_flatMap (members : List Expr) :
    freeOccurrencesAll members = members.flatMap freeOccurrences := by
  induction members with
  | nil => rfl
  | cons e members ih => simp [freeOccurrencesAll, ih]

end TopicSpec.Expr
