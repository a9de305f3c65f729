import Mathlib.Data.List.Forall2
import TopicSpec.Proofs.Conclusion
import TopicSpec.Typing.Rule

/-! # Wider types

The typing rule is monotone: where it accepts the types of subexpressions it accepts wider ones, and
its answer is wider too.
-/

namespace TopicSpec
set_option autoImplicit false

/-! ## Two runs -/

section
variable {ε α α' β β' : Type} {P : α → α' → Prop} {Q : β → β' → Prop}

/-- Every value of the first computation is matched by one of the second. -/
def Matched (P : α → α' → Prop) (strict : Except ε α) (lax : Except ε α') : Prop :=
  ∀ a, strict = .ok a → ∃ a', lax = .ok a' ∧ P a a'

theorem matched_ok {a : α} {a' : α'} (h : P a a') :
    Matched P (.ok a : Except ε α) (.ok a') := by
  intro b hb
  cases hb
  exact ⟨a', rfl, h⟩

theorem matched_bind {strict : Except ε α} {lax : Except ε α'} {f : α → Except ε β}
    {g : α' → Except ε β'} (h : Matched P strict lax)
    (hNext : ∀ a a', P a a' → Matched Q (f a) (g a')) :
    Matched Q (strict >>= f) (lax >>= g) := by
  intro b hb
  obtain ⟨a, hStrict, hRest⟩ := ok_of_bind hb
  obtain ⟨a', hLax, hP⟩ := h a hStrict
  rw [hLax]
  exact hNext a a' hP b hRest

theorem matched_error {e : ε} {lax : Except ε α'} :
    Matched P (.error e : Except ε α) lax := by
  intro a h
  cases h

theorem matched_of_ok {strict : Except ε α} {a' : α'} (h : ∀ a, P a a') :
    Matched P strict (.ok a') := by
  intro a _
  exact ⟨a', rfl, h a⟩

theorem matched_guard {strict lax : Except ε Unit} {f : Except ε β} {g : Except ε β'}
    (h : strict = .ok () → lax = .ok ()) (hNext : Matched Q f g) :
    Matched Q (strict >>= fun _ => f) (lax >>= fun _ => g) := by
  refine matched_bind (P := fun _ _ => True) ?_ fun _ _ _ => hNext
  intro u hStrict
  exact ⟨(), h hStrict, trivial⟩

theorem forall₂_one {a : α} {bs : List α'} (h : List.Forall₂ P [a] bs) : ∃ b, P a b ∧ bs = [b] := by
  cases h with
  | cons hHead hTail =>
    cases hTail
    exact ⟨_, hHead, rfl⟩

theorem forall₂_two {a₁ a₂ : α} {bs : List α'} (h : List.Forall₂ P [a₁, a₂] bs) :
    ∃ b₁ b₂, P a₁ b₁ ∧ P a₂ b₂ ∧ bs = [b₁, b₂] := by
  cases h with
  | cons hHead hTail =>
    obtain ⟨b₂, hSecond, rfl⟩ := forall₂_one hTail
    exact ⟨_, b₂, hHead, hSecond, rfl⟩

end

/-! ## The order of types -/

instance : LE Kinds where
  le a b := ∀ kind, a.has kind = true → b.has kind = true

instance : LE Ty where
  le a b := a.kinds ≤ b.kinds ∧ a.elements ≤ b.elements

namespace Kinds

variable {a b c d : Kinds}

theorem le_refl (a : Kinds) : a ≤ a := fun _ h => h

theorem le_any (a : Kinds) : a ≤ any := fun kind _ => has_any kind

theorem union_mono (hLeft : a ≤ b) (hRight : c ≤ d) : a.union c ≤ b.union d := by
  intro kind h
  rw [has_union, Bool.or_eq_true] at h ⊢
  exact h.imp (hLeft kind) (hRight kind)

theorem intersect_mono (hLeft : a ≤ b) (hRight : c ≤ d) : a.intersect c ≤ b.intersect d := by
  intro kind h
  rw [has_intersect, Bool.and_eq_true] at h ⊢
  exact h.imp (hLeft kind) (hRight kind)

theorem admits_mono (hLeft : a ≤ b) (hRight : c ≤ d) (h : a.admits c = true) :
    b.admits d = true := by
  obtain ⟨kind, ha, hc⟩ := admits_iff.mp h
  exact admits_iff.mpr ⟨kind, hLeft kind ha, hRight kind hc⟩

end Kinds

namespace Ty

theorem le_refl (ty : Ty) : ty ≤ ty := ⟨Kinds.le_refl _, Kinds.le_refl _⟩

theorem le_any (ty : Ty) : ty ≤ any := ⟨Kinds.le_any _, Kinds.le_any _⟩

theorem of_mono {a b : Kinds} (h : a ≤ b) : of a ≤ of b := ⟨h, Kinds.le_refl _⟩

theorem array_mono {a b : Kinds} (h : a ≤ b) : array a ≤ array b := ⟨Kinds.le_refl _, h⟩

end Ty

/-! ## The rule -/

namespace Typing

variable {e : Expr} {role : Role} {a a' b b' ty : Ty} {types types' : List Ty}

theorem expect_mono {kinds kinds' : Kinds} (hKinds : kinds ≤ kinds') (hTy : a ≤ a')
    (h : expect role kinds a e = .ok ()) : expect role kinds' a' e = .ok () :=
  expect_eq_ok_iff.mpr (Kinds.admits_mono hTy.1 hKinds (expect_eq_ok_iff.mp h))

theorem matched_pure (ty : Ty) :
    Matched (· ≤ ·) (pure ty : Except TypeError Ty) (pure ty) := matched_ok (Ty.le_refl ty)

theorem memberKinds_matched (h : List.Forall₂ (· ≤ ·) types types') :
    Matched (· ≤ ·) (memberKinds e types) (memberKinds e types') := by
  induction h with
  | nil => exact matched_ok (Kinds.le_refl _)
  | cons hHead _ ih =>
    apply matched_guard (expect_mono (Kinds.le_refl _) hHead)
    apply matched_bind ih
    intro kinds kinds' hTail
    exact matched_ok (Kinds.union_mono (Kinds.intersect_mono hHead.1 (Kinds.le_refl _)) hTail)

theorem operatorType_matched {op : BinaryOp} {operands result : Kind} (hLeft : a ≤ a')
    (hRight : b ≤ b') :
    Matched (· ≤ ·) (operatorType op operands result a b e)
      (operatorType op operands result a' b' e) := by
  apply matched_guard (expect_mono (Kinds.le_refl _) hLeft)
  apply matched_guard (expect_mono (Kinds.le_refl _) hRight)
  exact matched_pure _

theorem binaryType_matched {op : BinaryOp} (hLeft : a ≤ a') (hRight : b ≤ b') :
    Matched (· ≤ ·) (binaryType op a b e) (binaryType op a' b' e) := by
  cases op with
  | eq | ne =>
    intro ty hType
    simp only [binaryType] at hType ⊢
    split at hType
    · rename_i hAdmits
      rw [if_pos (Kinds.admits_mono hLeft.1 hRight.1 hAdmits)]
      exact ⟨_, rfl, Except.ok.inj hType ▸ Ty.le_refl _⟩
    · cases hType
  | mem =>
    apply matched_guard (expect_mono (Kinds.le_refl _) hRight)
    -- What the left operand has to be depends on the type of the right one.
    apply matched_guard (expect_mono hRight.2 hLeft)
    exact matched_pure _
  | _ => exact operatorType_matched hLeft hRight

/-- The rule accepts wider types of subexpressions, with a wider answer. -/
theorem nodeType_matched (hLength : types.length = e.children.length)
    (h : List.Forall₂ (· ≤ ·) types types') :
    Matched (· ≤ ·) (nodeType e types) (nodeType e types') := by
  cases e with
  | vacuous | literal _ | var _ | this =>
    obtain rfl := List.eq_nil_of_length_eq_zero hLength
    cases h
    exact fun ty hType => ⟨ty, hType, Ty.le_refl ty⟩
  | field base name =>
    obtain ⟨ty, rfl⟩ := List.length_eq_one_iff.mp hLength
    obtain ⟨ty', hBase, rfl⟩ := forall₂_one h
    apply matched_guard (expect_mono (Kinds.le_refl _) hBase)
    exact matched_pure _
  | index base position =>
    obtain ⟨baseType, positionType, rfl⟩ := List.length_eq_two.mp hLength
    obtain ⟨baseType', positionType', hBase, hPosition, rfl⟩ := forall₂_two h
    apply matched_guard (expect_mono (Kinds.le_refl _) hBase)
    apply matched_guard (expect_mono (Kinds.le_refl _) hPosition)
    exact matched_ok (Ty.of_mono hBase.2)
  | call function argument =>
    obtain ⟨ty, rfl⟩ := List.length_eq_one_iff.mp hLength
    obtain ⟨ty', hArgument, rfl⟩ := forall₂_one h
    simp only [nodeType]
    cases signature? function with
    | none => exact matched_error
    | some signature =>
      apply matched_guard (expect_mono (Kinds.le_refl _) hArgument)
      exact matched_pure _
  | set members =>
    apply matched_bind (memberKinds_matched h)
    intro kinds kinds' hKinds
    exact matched_ok (Ty.array_mono hKinds)
  | range lower upper excludeLower excludeUpper =>
    obtain ⟨lowerType, upperType, rfl⟩ := List.length_eq_two.mp hLength
    obtain ⟨lowerType', upperType', hLower, hUpper, rfl⟩ := forall₂_two h
    apply matched_guard (expect_mono (Kinds.le_refl _) hLower)
    apply matched_guard (expect_mono (Kinds.le_refl _) hUpper)
    exact matched_pure _
  | unary op operand =>
    obtain ⟨ty, rfl⟩ := List.length_eq_one_iff.mp hLength
    obtain ⟨ty', hOperand, rfl⟩ := forall₂_one h
    cases op with
    | not | neg =>
      apply matched_guard (expect_mono (Kinds.le_refl _) hOperand)
      exact matched_pure _
  | binary op left right =>
    obtain ⟨leftType, rightType, rfl⟩ := List.length_eq_two.mp hLength
    obtain ⟨leftType', rightType', hLeft, hRight, rfl⟩ := forall₂_two h
    exact binaryType_matched hLeft hRight
  | quantified quantifier bound domain body =>
    obtain ⟨domainType, bodyType, rfl⟩ := List.length_eq_two.mp hLength
    obtain ⟨domainType', bodyType', hDomain, hBody, rfl⟩ := forall₂_two h
    apply matched_guard (expect_mono (Kinds.le_refl _) hDomain)
    apply matched_guard (expect_mono (Kinds.le_refl _) hBody)
    exact matched_pure _

end Typing
end TopicSpec
