import TopicSpec.Grammar.Condition
import TopicSpec.Proofs.Scan.LexemeMirror

/-! # Conditions side by side

Every production takes alike texts alike, because gaps are skipped as a whole and everything else
is told from plain characters. The two runs have their own levels of nesting, and each text is
shorter than the levels that are left to its run. -/

namespace TopicSpec.Grammar
open Scan Scan.Likeness
set_option autoImplicit false

variable {L : Likeness} {inner inner' : Inner} {n n' : Nat}

/-- Texts within the bounds are taken alike. -/
def Within (L : Likeness) (n n' : Nat) {α : Type} (p p' : Scan α) : Prop :=
  ∀ m ≤ n, ∀ m' ≤ n', Mirrors L.Closes (L.Near m m') (fun _ => L.Near m m') p p'

/-- A text within a bound leaves room for a character to be read. -/
theorem within_succ {α : Type} {p p' : Scan α}
    (h : ∀ m ≤ n, ∀ m' ≤ n',
      Mirrors L.Closes (L.Near (m + 1) (m' + 1)) (fun _ => L.Near (m + 1) (m' + 1)) p p') :
    Within L (n + 1) (n' + 1) p p' := by
  intro m hm m' hm'
  cases m with
  | zero => exact fun s s' hs => absurd hs.left (Nat.not_lt_zero _)
  | succ m =>
    cases m' with
    | zero => exact fun s s' hs => absurd hs.right (Nat.not_lt_zero _)
    | succ m' => exact h m (Nat.le_of_succ_le_succ hm) m' (Nat.le_of_succ_le_succ hm')

theorem Within.strict {α : Type} {p p' : Scan α}
    (h : ∀ m ≤ n, ∀ m' ≤ n',
      Mirrors L.Closes (L.Near (m + 1) (m' + 1)) (fun _ => L.Near m m') p p') :
    Within L (n + 1) (n' + 1) p p' := by
  apply within_succ
  intro m hm m' hm'
  exact (h m hm m' hm').imp (fun _ _ hs => hs) fun _ _ _ hr =>
    hr.mono (Nat.le_succ m) (Nat.le_succ m')

structure InnerWithin (L : Likeness) (n n' : Nat) (inner inner' : Inner) : Prop where
  condition : Within L n n' inner.condition inner'.condition
  logicAtom : Within L n n' inner.logicAtom inner'.logicAtom
  expr : Within L n n' inner.expr inner'.expr
  operand : Within L n n' inner.operand inner'.operand

/-! ## Chains of operators -/

section
variable {rule : Rule} {operand operand' : Scan SyntaxTree} {operator : Scan String}

theorem mirrors_chainLink (hOperand : Within L n n' operand operand')
    (hOperator : L.Lexical operator)
    {m m' : Nat} (hm : m < n) (hm' : m' < n') (front : Front) :
    Mirrors L.Closes (L.Near (m + 1) (m' + 1)) (L.Advance m m')
      (chainLink rule operand operator front) (chainLink rule operand' operator front) := by
  apply mirrors_gap.andThen
  intro _
  apply ((hOperator m m').optional (R := fun op? => L.Advance m m' op?) (fun _ _ h => h)
    fun _ _ _ h => h).andThen
  intro op?
  cases op? with
  | none => exact Mirrors.pure fun _ _ h => h
  | some op =>
    apply mirrors_gap.andThen
    intro _
    apply (hOperand m (Nat.le_of_lt hm) m' (Nat.le_of_lt hm')).require.bind
    · exact fun _ _ => rfl
    · exact fun _ => Mirrors.pure fun _ _ h => h

theorem chainLink_nil (hEnd : Declines operator []) (front : Front) :
    chainLink rule operand operator front [] = .accept none [] := by
  have hGap : gap [] = .accept () [] := rfl
  rw [chainLink, bind_of_accept hGap, bind_of_accept (optional_of_declines hEnd)]
  rfl

theorem within_chain (hOperand : Within L n n' operand operand') (hOperator : L.Lexical operator)
    (hEnd : Declines operator []) :
    Within L n n' (chain rule operand operator) (chain rule operand' operator) := by
  intro m hm m' hm'
  apply (hOperand m hm m' hm').bind
  · intro _ first
    apply isOver_bind (isOver_repeatWithin (chainLink_nil hEnd) 1 _)
    exact fun _ => rfl
  · intro first
    apply Mirrors.bind (mirrors_repeated ?_ (fun _ => chainLink_nil hEnd) _)
    · exact fun _ _ => rfl
    · exact fun _ => Mirrors.pure fun _ _ h => h
    · intro k hk k' hk'
      exact mirrors_chainLink hOperand hOperator (Nat.lt_of_lt_of_le hk hm)
        (Nat.lt_of_lt_of_le hk' hm')

end

/-! ## Operands -/

theorem within_negativeNumber (h : InnerWithin L n n' inner inner') :
    Within L (n + 1) (n' + 1) (negativeNumber inner) (negativeNumber inner') := by
  apply Within.strict
  intro m hm m' hm'
  apply (lexical_literal rfl (by decide) m m').andThenGap
  intro _
  exact (h.operand m hm m' hm').commit.map

theorem within_parenthesized (h : InnerWithin L n n' inner inner') :
    Within L (n + 1) (n' + 1) (parenthesized inner) (parenthesized inner') := by
  apply Within.strict
  intro m hm m' hm'
  apply (lexical_literal rfl (by decide) m m').andThenGap
  intro _
  apply (h.condition m hm m' hm').commit.thenGap
  · exact fun _ _ => rfl
  · intro condition
    exact (mirrors_closingMark (c := ')') rfl (by decide)).map

theorem mirrors_furtherMember (h : InnerWithin L n n' inner inner') {m m' : Nat} (hm : m ≤ n)
    (hm' : m' ≤ n') :
    Mirrors L.Closes (L.Near (m + 1) (m' + 1)) (fun _ => L.Near m m') (furtherMember inner)
      (furtherMember inner') := by
  apply mirrors_gap.andThen
  intro _
  apply (lexical_literal rfl (by decide) m m').andThenGap
  intro _
  exact h.expr m hm m' hm'

theorem within_members (h : InnerWithin L n n' inner inner') :
    Within L n n' (members inner) (members inner') := by
  intro m hm m' hm'
  have hMany : Mirrors L.Closes (L.Near m m') (fun _ => L.Near m m')
      (many (optional (furtherMember inner))) (many (optional (furtherMember inner'))) := by
    apply mirrors_many
    · intro k hk k' hk'
      have hLe : k ≤ n := Nat.le_of_lt (Nat.lt_of_lt_of_le hk hm)
      have hLe' : k' ≤ n' := Nat.le_of_lt (Nat.lt_of_lt_of_le hk' hm')
      exact (mirrors_furtherMember h hLe hLe').optional (fun _ _ h => h) fun _ _ _ h => h
    · exact fun _ => rfl
  apply mirrors_gap.andThen
  intro _
  apply (h.expr m hm m' hm').bind
  · exact fun _ _ => rfl
  · intro first
    exact hMany.map

theorem within_enumLiteral (h : InnerWithin L n n' inner inner') :
    Within L (n + 1) (n' + 1) (enumLiteral inner) (enumLiteral inner') := by
  apply Within.strict
  intro m hm m' hm'
  apply (lexical_literal rfl (by decide) m m').andThenGap
  intro _
  apply (within_members h m hm m' hm').require.thenGap
  · exact fun _ _ => rfl
  · intro members
    exact (mirrors_closingMark (c := '\x7d') rfl (by decide)).map

/-- Two plain marks in sequence are seen alike. -/
theorem mirrors_rangeEnd {m m' : Nat} :
    Mirrors False (L.Near m m') (fun _ => L.Near m m') rangeEnd rangeEnd := by
  have hBracket : L.Lexical (literal "]") := lexical_literal rfl (by decide)
  apply hBracket.weak.require.andThen
  intro _
  apply Mirrors.andThen
  · apply Mirrors.peek
    intro s s' hs
    have hMark : ∀ word : List Char, word.all isOrdinary = true →
        (dropWord word s).isSome = (dropWord word s').isSome := by
      intro word hWord
      rcases dropWord_cases hWord hs.like with ⟨r, r', hr, hr', -⟩ | ⟨hr, hr'⟩
      · rw [hr, hr']
        rfl
      · rw [hr, hr']
    simp only [← Option.not_isSome, hMark ['!'] rfl, hMark ['!', '='] rfl]
  · intro exclusive
    cases exclusive with
    | false => exact Mirrors.pure fun _ _ h => h
    | true =>
      have hMark : L.Lexical (literal "!") := lexical_literal rfl (by decide)
      exact hMark.weak.map

theorem within_rangeLiteral (h : InnerWithin L n n' inner inner') :
    Within L (n + 1) (n' + 1) (rangeLiteral inner) (rangeLiteral inner') := by
  have hSeparator : L.Lexical (orElse (keyword "to") (literal ",")) := fun m m' =>
    (lexical_keyword rfl (by decide) m m').orElse (lexical_literal rfl (by decide) m m')
  apply Within.strict
  intro m hm m' hm'
  apply (lexical_oneMark (by decide) m m').andThenGap
  intro left
  apply (h.expr m hm m' hm').require.thenGap
  · exact fun _ _ => rfl
  · intro lower
    apply hSeparator.weak.require.andThenGap
    intro _
    apply (h.expr m hm m' hm').require.thenGap
    · exact fun _ _ => rfl
    · intro upper
      exact mirrors_rangeEnd.lose.map

theorem within_functionCall (h : InnerWithin L n n' inner inner') :
    Within L (n + 1) (n' + 1) (functionCall inner) (functionCall inner') := by
  apply Within.strict
  intro m hm m' hm'
  apply (lexical_name m m').andThenGap
  intro function
  apply (lexical_literal rfl (by decide)).weak.andThenGap
  intro _
  apply (h.condition m hm m' hm').require.thenGap
  · exact fun _ _ => rfl
  · intro argument
    exact (mirrors_closingMark (c := ')') rfl (by decide)).map

/-! ## References -/

theorem lexical_variableReference : L.Lexical variableReference := by
  intro m m'
  apply (lexical_literal rfl (by decide) m m').andThen
  intro _
  exact lexical_identifier.weak.require.map

theorem mirrors_index (h : InnerWithin L n n' inner inner') {m m' : Nat} (hm : m ≤ n)
    (hm' : m' ≤ n') :
    Mirrors L.Closes (L.Near (m + 1) (m' + 1)) (fun _ => L.Near m m') (index inner)
      (index inner') := by
  apply (lexical_literal rfl (by decide) m m').andThenGap
  intro _
  apply (h.expr m hm m' hm').require.thenGap
  · exact fun _ _ => rfl
  · intro position
    exact (lexical_literal rfl (by decide)).weak.require.lose.map

theorem mirrors_referenceStep (h : InnerWithin L n n' inner inner') {m m' : Nat} (hm : m ≤ n)
    (hm' : m' ≤ n') (stem : Stem) :
    Mirrors L.Closes (L.Near (m + 1) (m' + 1)) (L.Advance m m') (referenceStep inner stem)
      (referenceStep inner' stem) := by
  apply ((lexical_literal rfl (by decide) m m').optional
    (R := fun point? : Option Unit => L.Advance m m' point?) (fun _ _ h => h)
    fun _ _ _ h => h).andThen
  intro point?
  cases point? with
  | some point =>
    apply lexical_name.weak.require.andThen
    exact fun _ => Mirrors.pure fun _ _ h => h
  | none =>
    by_cases hIndexed : stem.indexed = true
    · simp only [hIndexed, if_true]
      exact Mirrors.pure fun _ _ h => h
    · simp only [hIndexed]
      apply ((mirrors_index h hm hm').optional
        (R := fun position? => L.Advance m m' position?) (fun _ _ h => h) fun _ _ _ h => h).bind
      · intro _ position?
        cases position? <;> rfl
      · intro position?
        cases position? with
        | none => exact Mirrors.pure fun _ _ h => h
        | some position => exact Mirrors.pure fun _ _ h => h

theorem within_reference (h : InnerWithin L n n' inner inner') :
    Within L (n + 1) (n' + 1) (reference inner) (reference inner') := by
  intro m hm m' hm'
  have hEnd : ∀ stem, referenceStep inner' stem [] = .accept none [] := by
    rintro ⟨tree, indexed⟩
    cases indexed <;> rfl
  have hBase : L.Lexical (orElse variableReference ownField) := fun m m' =>
    (lexical_variableReference m m').orElse (lexical_name.map m m')
  apply hBase.weak.andThen
  intro base
  apply Mirrors.bind (mirrors_repeated ?_ (fun _ => hEnd) _)
  · exact fun _ _ => rfl
  · exact fun _ => Mirrors.pure fun _ _ h => h
  · intro k hk k' hk' stem
    apply mirrors_referenceStep h
    · omega
    · omega

/-! ## The levels of precedence -/

theorem within_operand (h : InnerWithin L n n' inner inner') :
    Within L (n + 1) (n' + 1) (operand inner) (operand inner') := by
  have hBoolean : L.Lexical boolean := (lexical_oneKeyword (by decide)).map
  have hConstant : L.Lexical numberConstant := (lexical_oneKeyword (by decide)).map
  intro m hm m' hm'
  apply Mirrors.expecting
  apply (within_negativeNumber h m hm m' hm').firstOf
  refine .cons (within_parenthesized h m hm m' hm') ?_
  refine .cons hConstant.weak.lose ?_
  refine .cons hBoolean.weak.lose ?_
  refine .cons lexical_quoted.map.weak.lose ?_
  refine .cons lexical_number.map.weak.lose ?_
  refine .cons (within_enumLiteral h m hm m' hm') ?_
  refine .cons (within_rangeLiteral h m hm m' hm') ?_
  refine .cons (within_functionCall h m hm m' hm') ?_
  exact .cons (within_reference h m hm m' hm') .nil

theorem lexical_productOperator : L.Lexical productOperator := by
  intro m m' s s' hs
  unfold productOperator
  have hStars : ['*', '*'].all isOrdinary = true := rfl
  rcases dropWord_cases hStars hs.like with ⟨r, r', hr, hr', -⟩ | ⟨hr, hr'⟩
  · simp only [hr, hr', Option.isSome_some, if_true]
    exact .reject
  · simp only [hr, hr', Option.isSome_none, Bool.false_eq_true, if_false]
    exact lexical_oneMark (by decide) m m' s s' hs

theorem within_factor (h : InnerWithin L n n' inner inner') :
    Within L (n + 1) (n' + 1) (factor inner) (factor inner') :=
  within_chain (within_operand h) (lexical_oneMark (by decide)) ⟨_, _, rfl⟩

theorem within_term (h : InnerWithin L n n' inner inner') :
    Within L (n + 1) (n' + 1) (term inner) (term inner') :=
  within_chain (within_factor h) lexical_productOperator ⟨_, _, rfl⟩

theorem within_expr (h : InnerWithin L n n' inner inner') :
    Within L (n + 1) (n' + 1) (expr inner) (expr inner') :=
  within_chain (within_term h) (lexical_oneMark (by decide)) ⟨_, _, rfl⟩

theorem within_atomicCondition (h : InnerWithin L n n' inner inner') :
    Within L (n + 1) (n' + 1) (atomicCondition inner) (atomicCondition inner') := by
  have hComparison : L.Lexical comparison := fun m m' =>
    (lexical_oneMark (by decide) m m').orElse (lexical_oneKeyword (by decide) m m')
  intro m hm m' hm'
  apply (within_expr h m hm m' hm').thenGap
  · exact fun _ _ => rfl
  · intro left
    apply hComparison.optional.andThen
    intro op?
    cases op? with
    | none => exact Mirrors.pure fun _ _ h => h
    | some op =>
      apply mirrors_gap.andThen
      intro _
      exact (within_expr h m hm m' hm').require.map

theorem within_negation (h : InnerWithin L n n' inner inner') :
    Within L (n + 1) (n' + 1) (negation inner) (negation inner') := by
  apply Within.strict
  intro m hm m' hm'
  apply (lexical_keyword rfl (by decide) m m').andThenGap
  intro _
  exact (h.logicAtom m hm m' hm').require.map

theorem within_logicAtom (h : InnerWithin L n n' inner inner') :
    Within L (n + 1) (n' + 1) (logicAtom inner) (logicAtom inner') := fun m hm m' hm' =>
  (within_negation h m hm m' hm').orElse (within_atomicCondition h m hm m' hm')

theorem within_conjunction (h : InnerWithin L n n' inner inner') :
    Within L (n + 1) (n' + 1) (conjunction inner) (conjunction inner') :=
  within_chain (within_logicAtom h) (lexical_oneKeyword (by decide)) ⟨_, _, rfl⟩

theorem within_disjunction (h : InnerWithin L n n' inner inner') :
    Within L (n + 1) (n' + 1) (disjunction inner) (disjunction inner') :=
  within_chain (within_conjunction h) (lexical_oneKeyword (by decide)) ⟨_, _, rfl⟩

theorem within_quantification (h : InnerWithin L n n' inner inner') :
    Within L (n + 1) (n' + 1) (quantification inner) (quantification inner') := by
  apply Within.strict
  intro m hm m' hm'
  apply (lexical_oneKeyword (by decide) m m').andThenGap
  intro quantifier
  apply lexical_name.weak.require.andThenGap
  intro bound
  apply (lexical_keyword rfl (by decide)).weak.require.andThenGap
  intro _
  apply (h.operand m hm m' hm').require.thenGap
  · exact fun _ _ => rfl
  · intro domain
    apply (lexical_literal rfl (by decide)).weak.require.andThenGap
    intro _
    exact (h.condition m hm m' hm').commit.map

theorem condition_eq_orElse (inner : Inner) :
    condition inner =
      orElse (quantification inner >>= fun tree => pure (.node .condition [tree]))
        (chain .condition (disjunction inner) (oneKeyword "implies" ["iff"])) := by
  funext s
  rw [condition, bind_apply]
  unfold orElse Scan.optional
  rw [bind_apply]
  cases quantification inner s with
  | accept tree rest => rfl
  | reject committed expected rest => cases committed <;> rfl

theorem within_condition (h : InnerWithin L n n' inner inner') :
    Within L (n + 1) (n' + 1) (condition inner) (condition inner') := by
  intro m hm m' hm'
  rw [condition_eq_orElse, condition_eq_orElse]
  apply Mirrors.orElse
  · exact (within_quantification h m hm m' hm').map
  · exact within_chain (within_disjunction h) (lexical_oneKeyword (by decide)) ⟨_, _, rfl⟩
      m hm m' hm'

/-! ## Closing the circle -/

theorem within_nested (L : Likeness) (n n' : Nat) : InnerWithin L n n' (nested n) (nested n') := by
  have hLeft : ∀ {n' : Nat} {p p' : Scan SyntaxTree}, Within L 0 n' p p' :=
    fun m hm _ _ s s' hs => absurd (Nat.lt_of_lt_of_le hs.left hm) (Nat.not_lt_zero _)
  have hRight : ∀ {n : Nat} {p p' : Scan SyntaxTree}, Within L n 0 p p' :=
    fun _ _ m' hm' s s' hs => absurd (Nat.lt_of_lt_of_le hs.right hm') (Nat.not_lt_zero _)
  -- A bracket takes a character and a level, so no run gives up before its text does.
  induction n generalizing n' with
  | zero => exact ⟨hLeft, hLeft, hLeft, hLeft⟩
  | succ n ih =>
    cases n' with
    | zero => exact ⟨hRight, hRight, hRight, hRight⟩
    | succ n' =>
      exact ⟨within_condition (ih n'), within_logicAtom (ih n'), within_expr (ih n'),
        within_operand (ih n')⟩

/-- Alike texts hold the same condition at the front, or none. -/
theorem mirrors_anyCondition (L : Likeness) (m m' : Nat) :
    Mirrors L.Closes (L.Near m m') (fun _ => L.Near m m') anyCondition anyCondition := by
  intro s s' hs
  have hRun := (within_nested L (s.length + 1) (s'.length + 1)).condition _ (Nat.le_refl _) _
    (Nat.le_refl _) s s' ⟨hs.like, Nat.lt_succ_self _, Nat.lt_succ_self _⟩
  exact hRun.imp fun _ _ _ hr => hr.mono hs.left hs.right

end TopicSpec.Grammar
