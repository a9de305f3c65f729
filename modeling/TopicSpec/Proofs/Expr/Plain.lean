import TopicSpec.Proofs.Expr.Occurrence

/-! # Sets of plain values

The members of a set are rendered without parentheses, where the grammar has room for values alone.
An expression is plain if no set in it has a condition for a member. -/

namespace TopicSpec
set_option autoImplicit false

/-- The operators whose applications are conditions. -/
def BinaryOp.isCondition : BinaryOp → Bool
  | implies | iff | or | and | eq | ne | lt | le | gt | ge | mem => true
  | add | sub | mul | div | pow => false

namespace Expr

/-- A negation, a comparison, a connective or a quantification. -/
def isCondition : Expr → Bool
  | unary .not _ | quantified _ _ _ _ => true
  | binary op _ _ => op.isCondition
  | _ => false

/-- Neither an operator nor a quantifier is applied. A minus sign binds as a part of its operand. -/
def isOperand : Expr → Bool
  | unary .not _ | binary _ _ _ | quantified _ _ _ _ => false
  | _ => true

/-- No set that occurs in the expression has a condition for a member. -/
def SetsPlain (e : Expr) : Prop :=
  ∀ vars members, e.Within vars (.set members) → ∀ m ∈ members, m.isCondition = false

variable {e : Expr}

theorem setsPlain_iff : e.SetsPlain ↔
    (∀ members, e = .set members → ∀ m ∈ members, m.isCondition = false) ∧
      ∀ part ∈ e.parts, part.2.SetsPlain := by
  constructor
  · intro h
    refine ⟨?_, fun part hPart vars members hWithin => ?_⟩
    · rintro members rfl
      exact h [] members (.self _)
    · exact h _ members (.inside hPart hWithin)
  · rintro ⟨hHere, hParts⟩ vars members hWithin
    rcases within_iff.mp hWithin with ⟨-, h⟩ | ⟨part, hPart, inner, rfl, hInner⟩
    · exact hHere members h.symm
    · exact hParts part hPart inner members hInner

theorem setsPlain_of_parts_nil (hSet : ∀ members, e ≠ .set members) (hParts : e.parts = []) :
    e.SetsPlain :=
  setsPlain_iff.mpr ⟨fun members h => absurd h (hSet members), by simp [hParts]⟩

theorem setsPlain_literal (l : Literal) : (literal l).SetsPlain :=
  setsPlain_of_parts_nil (by simp) rfl

theorem setsPlain_var (name : String) : (var name).SetsPlain :=
  setsPlain_of_parts_nil (by simp) rfl

theorem setsPlain_this : this.SetsPlain := setsPlain_of_parts_nil (by simp) rfl

theorem setsPlain_field {base : Expr} {name : String} :
    (field base name).SetsPlain ↔ base.SetsPlain := by
  rw [setsPlain_iff]
  simp [parts, children]

theorem setsPlain_index {base position : Expr} :
    (index base position).SetsPlain ↔ base.SetsPlain ∧ position.SetsPlain := by
  rw [setsPlain_iff]
  simp [parts, children]

theorem setsPlain_call {function : String} {argument : Expr} :
    (call function argument).SetsPlain ↔ argument.SetsPlain := by
  rw [setsPlain_iff]
  simp [parts, children]

theorem setsPlain_set {members : List Expr} :
    (set members).SetsPlain ↔ ∀ m ∈ members, m.isCondition = false ∧ m.SetsPlain := by
  rw [setsPlain_iff]
  simp only [parts, children, set.injEq, List.mem_map, forall_eq']
  constructor
  · rintro ⟨hHere, hParts⟩ m hMember
    exact ⟨hHere m hMember, hParts (none, m) ⟨m, hMember, rfl⟩⟩
  · intro h
    refine ⟨fun m hMember => (h m hMember).1, ?_⟩
    rintro _ ⟨m, hMember, rfl⟩
    exact (h m hMember).2

theorem setsPlain_range {lower upper : Expr} {excludeLower excludeUpper : Bool} :
    (range lower upper excludeLower excludeUpper).SetsPlain ↔
      lower.SetsPlain ∧ upper.SetsPlain := by
  rw [setsPlain_iff]
  simp [parts, children]

theorem setsPlain_unary {op : UnaryOp} {operand : Expr} :
    (unary op operand).SetsPlain ↔ operand.SetsPlain := by
  rw [setsPlain_iff]
  simp [parts, children]

theorem setsPlain_binary {op : BinaryOp} {left right : Expr} :
    (binary op left right).SetsPlain ↔ left.SetsPlain ∧ right.SetsPlain := by
  rw [setsPlain_iff]
  simp [parts, children]

theorem setsPlain_quantified {quantifier : Quantifier} {bound : String} {domain body : Expr} :
    (quantified quantifier bound domain body).SetsPlain ↔ domain.SetsPlain ∧ body.SetsPlain := by
  rw [setsPlain_iff]
  simp [parts]

end Expr
end TopicSpec
