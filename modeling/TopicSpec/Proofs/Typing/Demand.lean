import TopicSpec.Proofs.Conclusion
import TopicSpec.Proofs.Expr.Plain
import TopicSpec.Proofs.Phrase.Written

/-! # What the typing rule demands

The positions of an expression in which the grammar leaves no room for an operator ask for types
that no application of one has. -/

namespace TopicSpec
set_option autoImplicit false

theorem Kinds.admits_only_iff {kinds : Kinds} {kind : Kind} :
    kinds.admits (.only kind) = true ↔ kinds.has kind = true := by
  rw [admits_iff]
  constructor
  · rintro ⟨k, hHas, hOnly⟩
    obtain rfl : kind = k := by simpa using hOnly
    exact hHas
  · intro h
    exact ⟨kind, h, by simp⟩

namespace Typing

variable {e base position lower upper domain body : Expr} {a b ty : Ty}

theorem has_of_expect {role : Role} {kind : Kind} (h : expect role (.only kind) ty e = .ok ()) :
    ty.kinds.has kind = true :=
  Kinds.admits_only_iff.mp (expect_eq_ok_iff.mp h)

/-- A position is a number. -/
theorem number_of_index (h : nodeType (.index base position) [a, b] = .ok ty) :
    b.kinds.has .number = true := by
  obtain ⟨-, -, hRest⟩ := ok_of_bind h
  obtain ⟨_, hPosition, -⟩ := ok_of_bind hRest
  exact has_of_expect hPosition

/-- The bounds of a range are numbers. -/
theorem numbers_of_range {excludeLower excludeUpper : Bool}
    (h : nodeType (.range lower upper excludeLower excludeUpper) [a, b] = .ok ty) :
    a.kinds.has .number = true ∧ b.kinds.has .number = true := by
  obtain ⟨_, hLower, hRest⟩ := ok_of_bind h
  obtain ⟨_, hUpper, -⟩ := ok_of_bind hRest
  exact ⟨has_of_expect hLower, has_of_expect hUpper⟩

/-- A domain is an array. -/
theorem array_of_quantified {quantifier : Quantifier} {bound : String}
    (h : nodeType (.quantified quantifier bound domain body) [a, b] = .ok ty) :
    a.kinds.has .array = true := by
  obtain ⟨_, hDomain, -⟩ := ok_of_bind h
  exact has_of_expect hDomain

theorem type_of_quantified {quantifier : Quantifier} {bound : String}
    (h : nodeType (.quantified quantifier bound domain body) [a, b] = .ok ty) :
    ty = .only .bool := by
  obtain ⟨-, -, hRest⟩ := ok_of_bind h
  obtain ⟨-, -, hPure⟩ := ok_of_bind hRest
  exact (Except.ok.inj hPure).symm

theorem type_of_not (h : nodeType (.unary .not e) [a] = .ok ty) : ty = .only .bool := by
  obtain ⟨-, -, hPure⟩ := ok_of_bind h
  exact (Except.ok.inj hPure).symm

theorem type_of_operator {op : BinaryOp} {operands result : Kind}
    (h : operatorType op operands result a b e = .ok ty) : ty = .only result := by
  obtain ⟨-, -, hRest⟩ := ok_of_bind h
  obtain ⟨-, -, hPure⟩ := ok_of_bind hRest
  exact (Except.ok.inj hPure).symm

theorem type_of_binary {op : BinaryOp} {left right : Expr}
    (h : nodeType (.binary op left right) [a, b] = .ok ty) :
    ty = .only (if op.isCondition then .bool else .number) := by
  have hBinary : binaryType op a b (.binary op left right) = .ok ty := h
  cases op with
  | eq | ne =>
    simp only [binaryType] at hBinary
    split at hBinary
    · exact (Except.ok.inj hBinary).symm
    · cases hBinary
  | mem =>
    obtain ⟨-, -, hRest⟩ := ok_of_bind hBinary
    obtain ⟨-, -, hPure⟩ := ok_of_bind hRest
    exact (Except.ok.inj hPure).symm
  | _ => exact type_of_operator hBinary

end Typing

namespace Expr

variable {e : Expr} {ty : Ty}

/-- A condition is true or false and nothing else. -/
theorem Written.type_of_isCondition (h : e.Written ty) (hCondition : e.isCondition = true) :
    ty = .only .bool := by
  cases h with
  | not _ hType => exact Typing.type_of_not hType
  | quantified _ _ _ hType => exact Typing.type_of_quantified hType
  | @binary op _ _ _ _ _ _ _ hType =>
    have hOp : op.isCondition = true := hCondition
    rw [Typing.type_of_binary hType, if_pos hOp]
  | _ => cases hCondition

theorem Written.isCondition_of_number (h : e.Written ty) (hNumber : ty.kinds.has .number = true) :
    e.isCondition = false := by
  cases hCondition : e.isCondition with
  | false => rfl
  | true =>
    rw [h.type_of_isCondition hCondition] at hNumber
    cases hNumber

theorem Written.isOperand_of_array (h : e.Written ty) (hArray : ty.kinds.has .array = true) :
    e.isOperand = true := by
  cases hOperand : e.isOperand with
  | true => rfl
  | false =>
    cases h with
    | @binary op _ _ _ _ _ _ _ hType =>
      rw [Typing.type_of_binary hType] at hArray
      split at hArray <;> cases hArray
    | not _ hType =>
      rw [Typing.type_of_not hType] at hArray
      cases hArray
    | quantified _ _ _ hType =>
      rw [Typing.type_of_quantified hType] at hArray
      cases hArray
    | _ => cases hOperand

end Expr
end TopicSpec
