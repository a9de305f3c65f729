import Mathlib.Data.List.Basic
import TopicSpec.Proofs.Conclusion
import TopicSpec.Proofs.Expr.Induction
import TopicSpec.Typing.Environment

/-! # Numbers of operands

The typing rule is never applied to a wrong number of operands: inference passes it the types of
all direct subexpressions. -/

namespace TopicSpec.Typing
set_option autoImplicit false

theorem expect_concludes (role : Role) (kinds : Kinds) (ty : Ty) (e : Expr) :
    Concludes (fun _ => True) TypeError.Substantive (expect role kinds ty e) := by
  unfold expect
  split <;> trivial

theorem memberKinds_concludes (e : Expr) (types : List Ty) :
    Concludes (fun _ => True) TypeError.Substantive (memberKinds e types) := by
  induction types with
  | nil => trivial
  | cons ty types ih =>
    refine concludes_bind (expect_concludes _ _ _ _) fun _ _ => ?_
    exact concludes_bind ih fun _ _ => trivial

theorem operatorType_concludes (op : BinaryOp) (operands result : Kind) (left right : Ty)
    (e : Expr) :
    Concludes (fun _ => True) TypeError.Substantive
      (operatorType op operands result left right e) := by
  refine concludes_bind (expect_concludes _ _ _ _) fun _ _ => ?_
  exact concludes_bind (expect_concludes _ _ _ _) fun _ _ => trivial

theorem binaryType_concludes (op : BinaryOp) (left right : Ty) (e : Expr) :
    Concludes (fun _ => True) TypeError.Substantive (binaryType op left right e) := by
  cases op with
  | eq | ne =>
    simp only [binaryType]
    split <;> trivial
  | mem =>
    refine concludes_bind (expect_concludes _ _ _ _) fun _ _ => ?_
    exact concludes_bind (expect_concludes _ _ _ _) fun _ _ => trivial
  | _ => exact operatorType_concludes _ _ _ _ _ _

/-- The typing rule complains of the number of operands only where it is wrong. -/
theorem nodeType_concludes {e : Expr} {types : List Ty} (h : types.length = e.children.length) :
    Concludes (fun _ => True) TypeError.Substantive (nodeType e types) := by
  cases e with
  | vacuous | literal _ | var _ | this =>
    obtain rfl := List.eq_nil_of_length_eq_zero h
    trivial
  | field base name =>
    obtain ⟨ty, rfl⟩ := List.length_eq_one_iff.mp h
    exact concludes_bind (expect_concludes _ _ _ _) fun _ _ => trivial
  | index base position =>
    obtain ⟨ty, ty', rfl⟩ := List.length_eq_two.mp h
    refine concludes_bind (expect_concludes _ _ _ _) fun _ _ => ?_
    exact concludes_bind (expect_concludes _ _ _ _) fun _ _ => trivial
  | call function argument =>
    obtain ⟨ty, rfl⟩ := List.length_eq_one_iff.mp h
    simp only [nodeType]
    split
    · trivial
    · exact concludes_bind (expect_concludes _ _ _ _) fun _ _ => trivial
  | set members => exact concludes_bind (memberKinds_concludes _ _) fun _ _ => trivial
  | range lower upper excludeLower excludeUpper =>
    obtain ⟨ty, ty', rfl⟩ := List.length_eq_two.mp h
    refine concludes_bind (expect_concludes _ _ _ _) fun _ _ => ?_
    exact concludes_bind (expect_concludes _ _ _ _) fun _ _ => trivial
  | unary op operand =>
    obtain ⟨ty, rfl⟩ := List.length_eq_one_iff.mp h
    cases op with
    | not | neg => exact concludes_bind (expect_concludes _ _ _ _) fun _ _ => trivial
  | binary op left right =>
    obtain ⟨ty, ty', rfl⟩ := List.length_eq_two.mp h
    exact binaryType_concludes _ _ _ _
  | quantified quantifier bound domain body =>
    obtain ⟨ty, ty', rfl⟩ := List.length_eq_two.mp h
    refine concludes_bind (expect_concludes _ _ _ _) fun _ _ => ?_
    exact concludes_bind (expect_concludes _ _ _ _) fun _ _ => trivial

namespace Environment

theorem inferAllUnder_eq_mapM (env : Environment) (vars : List (String × Ty))
    (members : List Expr) :
    env.inferAllUnder vars members = members.mapM (env.inferUnder vars) := by
  induction members with
  | nil => rfl
  | cons e members ih => rw [inferAllUnder, List.mapM_cons, ih]

theorem declared?_concludes (env : Environment) (vars : List (String × Ty)) (e : Expr) :
    Concludes (fun _ => True) TypeError.Substantive (env.declared? vars e) := by
  unfold declared?
  split
  · split
    · trivial
    · split <;> trivial
  · trivial

theorem inferUnder_concludes (env : Environment) (vars : List (String × Ty)) (e : Expr) :
    Concludes (fun _ => True) TypeError.Substantive (env.inferUnder vars e) := by
  induction e generalizing vars with
  | vacuous | literal | var | this => trivial
  | field base name ih =>
    refine concludes_bind (ih vars) fun _ _ => ?_
    refine concludes_bind (nodeType_concludes rfl) fun _ _ => ?_
    exact concludes_bind (declared?_concludes env vars _) fun _ _ => trivial
  | index base position ihBase ihPosition =>
    refine concludes_bind (ihBase vars) fun _ _ => ?_
    exact concludes_bind (ihPosition vars) fun _ _ => nodeType_concludes rfl
  | call function argument ih => exact concludes_bind (ih vars) fun _ _ => nodeType_concludes rfl
  | set members ih =>
    rw [inferUnder, inferAllUnder_eq_mapM]
    refine concludes_bind (concludes_mapM fun m hm => ih m hm vars) fun _ _ => ?_
    exact concludes_bind (memberKinds_concludes _ _) fun _ _ => trivial
  | range lower upper excludeLower excludeUpper ihLower ihUpper =>
    refine concludes_bind (ihLower vars) fun _ _ => ?_
    exact concludes_bind (ihUpper vars) fun _ _ => nodeType_concludes rfl
  | unary op operand ih => exact concludes_bind (ih vars) fun _ _ => nodeType_concludes rfl
  | binary op left right ihLeft ihRight =>
    refine concludes_bind (ihLeft vars) fun _ _ => ?_
    exact concludes_bind (ihRight vars) fun _ _ => nodeType_concludes rfl
  | quantified quantifier bound domain body ihDomain ihBody =>
    refine concludes_bind (ihDomain vars) fun _ _ => ?_
    exact concludes_bind (ihBody _) fun _ _ => nodeType_concludes rfl

theorem checkCondition_concludes (env : Environment) (e : Expr) :
    Concludes (fun _ => True) TypeError.Substantive (env.checkCondition e) :=
  concludes_bind (inferUnder_concludes env [] e) fun _ _ => expect_concludes _ _ _ _

end Environment
end TopicSpec.Typing
