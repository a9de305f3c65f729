import TopicSpec.Grammar.Specification
import TopicSpec.Proofs.Scan.Progress

/-! # Progress of productions

Every production stands at a suffix of its text, however it ends, and has read a character of what
it accepts. The productions inside it are met behind a character or are bound more tightly, so that
two circles of productions which differ on long texts alone read short texts alike. -/

namespace TopicSpec.Grammar
open Scan
set_option autoImplicit false

variable {inner inner' : Inner} {m n : Nat}

/-- The productions inside end alike on texts shorter than `n`. -/
structure InnerBelow (n : Nat) (inner inner' : Inner) : Prop where
  condition : AgreeBelow n inner.condition inner'.condition
  logicAtom : AgreeBelow n inner.logicAtom inner'.logicAtom
  expr : AgreeBelow n inner.expr inner'.expr
  operand : AgreeBelow n inner.operand inner'.operand

/-! ## Chains of operators -/

section
variable {rule : Rule} {operand operand' : Scan SyntaxTree} {operator : Scan String}

theorem agree_chainLink (hOperand : AgreeBelow n operand operand') (hOperator : Advances operator)
    (hm : m < n) (front : Front) :
    Agree (m + 1) (afterRound m) (chainLink rule operand operator front)
      (chainLink rule operand' operator front) := by
  apply agree_gap.bind
  intro _
  apply hOperator.agree.round.bind
  intro op?
  cases op? with
  | none => exact Agree.pure (Nat.le_refl _)
  | some op =>
    apply agree_gap.bind
    intro _
    apply (hOperand.weak (Nat.le_of_lt hm)).require.bind
    exact fun _ => Agree.pure (Nat.le_refl _)

theorem below_chain (hOperand : AgreeBelow n operand operand') (hOperator : Advances operator) :
    AgreeBelow n (chain rule operand operator) (chain rule operand' operator) := by
  apply agreeBelow_of_agree
  intro m hm
  apply (hOperand.agree hm).bind
  intro first
  exact (Agree.repeated (fun k hk => agree_chainLink hOperand hOperator (Nat.lt_trans hk hm)) _).map

theorem advances_chain (hOperand : Advances operand) (hOperator : Advances operator) :
    Advances (chain rule operand operator) :=
  advances_of_agreeBelow fun _ => below_chain hOperand.agreeBelow hOperator

theorem advancesRound_chainLink (hOperand : Advances operand) (hOperator : Advances operator)
    (front : Front) : AdvancesRound (chainLink rule operand operator front) :=
  advancesRound_of_agree fun m =>
    agree_chainLink hOperand.agreeBelow hOperator (Nat.lt_succ_self m) front

end

/-! ## Operands -/

theorem below_negativeNumber (h : InnerBelow n inner inner') :
    AgreeBelow (n + 1) (negativeNumber inner) (negativeNumber inner') := by
  apply agreeBelow_of_agree
  intro m hm
  apply (advances_literal (by decide)).agree.thenGap
  intro _
  exact (h.operand.weak (Nat.le_of_lt_succ hm)).commit.map

theorem below_parenthesized (h : InnerBelow n inner inner') :
    AgreeBelow (n + 1) (parenthesized inner) (parenthesized inner') := by
  apply agreeBelow_of_agree
  intro m hm
  apply (advances_literal (by decide)).agree.thenGap
  intro _
  apply (h.condition.weak (Nat.le_of_lt_succ hm)).commit.thenGap
  intro condition
  exact (advances_literal (by decide)).weak.require.map

theorem advances_numberConstant : Advances numberConstant :=
  (advances_oneKeyword (by decide)).map

theorem advances_boolean : Advances boolean := (advances_oneKeyword (by decide)).map

theorem advances_string : Advances string := advances_quoted.map

theorem advances_numberLiteral : Advances number := advances_number.map

theorem agree_furtherMember (h : InnerBelow n inner inner') (hm : m ≤ n) :
    Agree (m + 1) (fun _ => m) (furtherMember inner) (furtherMember inner') := by
  apply agree_gap.bind
  intro _
  apply (advances_literal (by decide)).agree.thenGap
  intro _
  exact h.expr.weak hm

theorem agree_members (h : InnerBelow n inner inner') (hm : m ≤ n) :
    Agree m (fun _ => m) (members inner) (members inner') := by
  apply agree_gap.bind
  intro _
  apply (h.expr.weak hm).bind
  intro first
  have hRounds : ∀ k < m, Agree (k + 1) (afterRound k) (optional (furtherMember inner))
      (optional (furtherMember inner')) := fun k hk =>
    (agree_furtherMember h (Nat.le_trans (Nat.le_of_lt hk) hm)).round
  exact (Agree.many hRounds).map

theorem below_enumLiteral (h : InnerBelow n inner inner') :
    AgreeBelow (n + 1) (enumLiteral inner) (enumLiteral inner') := by
  apply agreeBelow_of_agree
  intro m hm
  apply (advances_literal (by decide)).agree.thenGap
  intro _
  apply (agree_members h (Nat.le_of_lt_succ hm)).require.thenGap
  intro members
  exact (advances_literal (by decide)).weak.require.map

theorem stays_peek (test : List Char → Bool) : Stays (peek test) := List.suffix_refl

theorem advances_rangeEnd : Advances rangeEnd := by
  apply advances_of_agree
  intro m
  apply (advances_literal (by decide)).agree.require.bind
  intro _
  apply (stays_peek _).agree.bind
  intro exclusive
  cases exclusive with
  | false => exact Agree.pure (Nat.le_refl _)
  | true => exact (advances_literal (by decide)).weak.map

theorem below_rangeLiteral (h : InnerBelow n inner inner') :
    AgreeBelow (n + 1) (rangeLiteral inner) (rangeLiteral inner') := by
  have hSeparator : Advances (orElse (keyword "to") (literal ",")) :=
    (advances_keyword (by decide)).orElse (advances_literal (by decide))
  apply agreeBelow_of_agree
  intro m hm
  apply (advances_oneMark (by decide)).agree.thenGap
  intro left
  apply (h.expr.weak (Nat.le_of_lt_succ hm)).require.thenGap
  intro lower
  apply hSeparator.weak.require.thenGap
  intro _
  apply (h.expr.weak (Nat.le_of_lt_succ hm)).require.thenGap
  intro upper
  exact advances_rangeEnd.weak.map

theorem below_functionCall (h : InnerBelow n inner inner') :
    AgreeBelow (n + 1) (functionCall inner) (functionCall inner') := by
  apply agreeBelow_of_agree
  intro m hm
  apply advances_name.agree.thenGap
  intro function
  apply (advances_literal (by decide)).weak.thenGap
  intro _
  apply (h.condition.weak (Nat.le_of_lt_succ hm)).require.thenGap
  intro argument
  exact (advances_literal (by decide)).weak.require.map

/-! ## References -/

theorem advances_variableReference : Advances variableReference := by
  apply advances_of_agree
  intro m
  apply (advances_literal (by decide)).agree.bind
  intro _
  exact advances_identifier.weak.require.map

theorem agree_index (h : InnerBelow n inner inner') (hm : m ≤ n) :
    Agree (m + 1) (fun _ => m) (index inner) (index inner') := by
  apply (advances_literal (by decide)).agree.thenGap
  intro _
  apply (h.expr.weak hm).require.thenGap
  intro position
  exact (advances_literal (by decide)).weak.require.map

theorem agree_referenceStep (h : InnerBelow n inner inner') (hm : m ≤ n) (stem : Stem) :
    Agree (m + 1) (afterRound m) (referenceStep inner stem) (referenceStep inner' stem) := by
  apply (advances_literal (by decide)).agree.round.bind
  intro point?
  cases point? with
  | some point =>
    apply advances_name.weak.require.bind
    exact fun _ => Agree.pure (Nat.le_refl _)
  | none =>
    by_cases hIndexed : stem.indexed = true
    · simp only [hIndexed, if_true]
      exact Agree.pure (Nat.le_refl _)
    · simp only [hIndexed]
      apply (agree_index h hm).round.bind
      intro position?
      cases position? with
      | none => exact Agree.pure (Nat.le_refl _)
      | some position => exact Agree.pure (Nat.le_refl _)

theorem below_reference (h : InnerBelow n inner inner') :
    AgreeBelow (n + 1) (reference inner) (reference inner') := by
  apply agreeBelow_of_agree
  intro m hm
  apply (advances_variableReference.orElse advances_name.map).agree.bind
  intro base
  have hRounds : ∀ k < m, ∀ stem,
      Agree (k + 1) (afterRound k) (referenceStep inner stem) (referenceStep inner' stem) :=
    fun k hk => agree_referenceStep h (Nat.le_of_lt (Nat.lt_of_lt_of_le hk (Nat.le_of_lt_succ hm)))
  exact (Agree.repeated hRounds _).map

/-! ## Operators -/

theorem advances_productOperator : Advances productOperator where
  suffix s := by
    unfold productOperator
    split
    · exact List.suffix_refl s
    · exact (advances_oneMark (by decide)).suffix s
  shorter hAccept := by
    unfold productOperator at hAccept
    split at hAccept
    · cases hAccept
    · exact (advances_oneMark (by decide)).shorter hAccept

theorem advances_comparison : Advances comparison :=
  (advances_oneMark (by decide)).orElse (advances_oneKeyword (by decide))

/-! ## Conditions -/

theorem below_negation (h : InnerBelow n inner inner') :
    AgreeBelow (n + 1) (negation inner) (negation inner') := by
  apply agreeBelow_of_agree
  intro m hm
  apply (advances_keyword (by decide)).agree.thenGap
  intro _
  exact (h.logicAtom.weak (Nat.le_of_lt_succ hm)).require.map

theorem below_quantification (h : InnerBelow n inner inner') :
    AgreeBelow (n + 1) (quantification inner) (quantification inner') := by
  apply agreeBelow_of_agree
  intro m hm
  apply (advances_oneKeyword (by decide)).agree.thenGap
  intro quantifier
  apply advances_name.weak.require.thenGap
  intro bound
  apply (advances_keyword (by decide)).weak.require.thenGap
  intro _
  apply (h.operand.weak (Nat.le_of_lt_succ hm)).require.thenGap
  intro domain
  apply (advances_literal (by decide)).weak.require.thenGap
  intro _
  exact (h.condition.weak (Nat.le_of_lt_succ hm)).commit.map

/-! ## The circle of productions -/

/-- The productions that occur inside themselves, and those of their operands. -/
inductive Production where
  | condition
  | disjunction
  | conjunction
  | logicAtom
  | atomicCondition
  | expr
  | term
  | factor
  | operand
  | quantification
  | negation
  | negativeNumber
  | parenthesized
  | numberConstant
  | boolean
  | string
  | number
  | enumLiteral
  | rangeLiteral
  | functionCall
  | reference
  deriving DecidableEq

namespace Production

/-- How tightly a production binds. It calls tighter ones where it begins, and all others behind a
character. -/
def rank : Production → Nat
  | condition => 9
  | disjunction => 8
  | conjunction => 7
  | logicAtom => 6
  | atomicCondition => 5
  | expr => 4
  | term => 3
  | factor => 2
  | operand => 1
  | _ => 0

theorem rank_le (p : Production) : p.rank ≤ 9 := by cases p <;> decide

/-- The text of a production, with `inner` for what it calls behind a character, and with `call`
for what it calls where it begins. -/
def body (inner : Inner) (call : Production → Scan SyntaxTree) : Production → Scan SyntaxTree
  | condition => do
    match ← optional (call quantification) with
    | some tree => return .node .condition [tree]
    | none => chain .condition (call disjunction) (oneKeyword "implies" ["iff"])
  | disjunction => chain .disjunction (call conjunction) (oneKeyword "or" [])
  | conjunction => chain .conjunction (call logicAtom) (oneKeyword "and" [])
  | logicAtom => orElse (call negation) (call atomicCondition)
  | atomicCondition => do
    let left ← call expr
    gap
    match ← optional comparison with
    | none => return .node .atomicCondition [left]
    | some op =>
      gap
      let right ← require .comparand (call expr)
      return .node .atomicCondition [left, .leaf ⟨.operator, op⟩, right]
  | expr => chain .expr (call term) (oneMark "+" ["-"])
  | term => chain .term (call factor) productOperator
  | factor => chain .factor (call operand) (oneMark "**" [])
  | operand =>
    expecting .value <|
      firstOf (call negativeNumber)
        [call parenthesized, call numberConstant, call boolean, call string, call number,
         call enumLiteral, call rangeLiteral, call functionCall, call reference]
  | quantification => Grammar.quantification inner
  | negation => Grammar.negation inner
  | negativeNumber => Grammar.negativeNumber inner
  | parenthesized => Grammar.parenthesized inner
  | numberConstant => Grammar.numberConstant
  | boolean => Grammar.boolean
  | string => Grammar.string
  | number => Grammar.number
  | enumLiteral => Grammar.enumLiteral inner
  | rangeLiteral => Grammar.rangeLiteral inner
  | functionCall => Grammar.functionCall inner
  | reference => Grammar.reference inner

/-- The production over those inside it. -/
def runOver (inner : Inner) : Production → Scan SyntaxTree
  | condition => Grammar.condition inner
  | disjunction => Grammar.disjunction inner
  | conjunction => Grammar.conjunction inner
  | logicAtom => Grammar.logicAtom inner
  | atomicCondition => Grammar.atomicCondition inner
  | expr => Grammar.expr inner
  | term => Grammar.term inner
  | factor => Grammar.factor inner
  | operand => Grammar.operand inner
  | quantification => Grammar.quantification inner
  | negation => Grammar.negation inner
  | negativeNumber => Grammar.negativeNumber inner
  | parenthesized => Grammar.parenthesized inner
  | numberConstant => Grammar.numberConstant
  | boolean => Grammar.boolean
  | string => Grammar.string
  | number => Grammar.number
  | enumLiteral => Grammar.enumLiteral inner
  | rangeLiteral => Grammar.rangeLiteral inner
  | functionCall => Grammar.functionCall inner
  | reference => Grammar.reference inner

theorem runOver_eq_body (inner : Inner) (p : Production) :
    p.runOver inner = p.body inner (runOver inner) := by
  cases p <;> rfl

variable {call call' : Production → Scan SyntaxTree}

theorem below_body_condition (hQuantification : AgreeBelow n (call quantification)
    (call' quantification)) (hDisjunction : AgreeBelow n (call disjunction) (call' disjunction)) :
    AgreeBelow n (condition.body inner call) (condition.body inner' call') := by
  apply agreeBelow_of_agree
  intro m hm
  apply (hQuantification.agree hm).round.bind
  intro tree?
  cases tree? with
  | some tree => exact Agree.pure (Nat.le_refl _)
  | none => exact (below_chain hDisjunction (advances_oneKeyword (by decide))).agree hm

theorem below_body_atomicCondition (hExpr : AgreeBelow n (call expr) (call' expr)) :
    AgreeBelow n (atomicCondition.body inner call) (atomicCondition.body inner' call') := by
  apply agreeBelow_of_agree
  intro m hm
  apply (hExpr.agree hm).thenGap
  intro left
  apply advances_comparison.optional.bind
  intro op?
  cases op? with
  | none => exact Agree.pure (Nat.le_refl _)
  | some op =>
    apply agree_gap.bind
    intro _
    exact (hExpr.weak (Nat.le_of_lt hm)).require.map

theorem below_body_operand (h : ∀ q : Production, q.rank = 0 → AgreeBelow n (call q) (call' q)) :
    AgreeBelow n (operand.body inner call) (operand.body inner' call') := by
  apply agreeBelow_of_agree
  intro m hm
  have hEach : ∀ q : Production, q.rank = 0 → Agree (m + 1) (fun _ => m) (call q) (call' q) :=
    fun q hq => (h q hq).agree hm
  apply Agree.expecting
  apply (hEach negativeNumber rfl).firstOf
  refine .cons (hEach parenthesized rfl) ?_
  refine .cons (hEach numberConstant rfl) ?_
  refine .cons (hEach boolean rfl) ?_
  refine .cons (hEach string rfl) ?_
  refine .cons (hEach number rfl) ?_
  refine .cons (hEach enumLiteral rfl) ?_
  refine .cons (hEach rangeLiteral rfl) ?_
  refine .cons (hEach functionCall rfl) ?_
  exact .cons (hEach reference rfl) .nil

/-- What a production reads of a short text is settled by its calls of tighter productions, and by
its calls on shorter texts. -/
theorem below_body (h : InnerBelow n inner inner') {p : Production}
    (hCall : ∀ q : Production, q.rank < p.rank → AgreeBelow (n + 1) (call q) (call' q)) :
    AgreeBelow (n + 1) (p.body inner call) (p.body inner' call') := by
  cases p with
  | condition => exact below_body_condition (hCall _ (by decide)) (hCall _ (by decide))
  | disjunction => exact below_chain (hCall _ (by decide)) (advances_oneKeyword (by decide))
  | conjunction => exact below_chain (hCall _ (by decide)) (advances_oneKeyword (by decide))
  | logicAtom =>
    apply agreeBelow_of_agree
    intro m hm
    exact ((hCall negation (by decide)).agree hm).orElse
      ((hCall atomicCondition (by decide)).agree hm)
  | atomicCondition => exact below_body_atomicCondition (hCall _ (by decide))
  | expr => exact below_chain (hCall _ (by decide)) (advances_oneMark (by decide))
  | term => exact below_chain (hCall _ (by decide)) advances_productOperator
  | factor => exact below_chain (hCall _ (by decide)) (advances_oneMark (by decide))
  | operand => exact below_body_operand fun q hq => hCall q (hq ▸ Nat.zero_lt_one)
  | quantification => exact below_quantification h
  | negation => exact below_negation h
  | negativeNumber => exact below_negativeNumber h
  | parenthesized => exact below_parenthesized h
  | numberConstant => exact advances_numberConstant.agreeBelow
  | boolean => exact advances_boolean.agreeBelow
  | string => exact advances_string.agreeBelow
  | number => exact advances_numberLiteral.agreeBelow
  | enumLiteral => exact below_enumLiteral h
  | rangeLiteral => exact below_rangeLiteral h
  | functionCall => exact below_functionCall h
  | reference => exact below_reference h

theorem below_runOver (h : InnerBelow n inner inner') (p : Production) :
    AgreeBelow (n + 1) (p.runOver inner) (p.runOver inner') := by
  induction hRank : p.rank using Nat.strongRecOn generalizing p with
  | ind rank ih =>
    subst hRank
    rw [runOver_eq_body, runOver_eq_body]
    exact below_body h fun q hq => ih q.rank hq q rfl

end Production

/-! ## Closing the circle -/

/-- Levels of nesting that a text is too short for make no difference. -/
theorem below_nested {k n n' : Nat} (hn : k ≤ n) (hn' : k ≤ n') :
    InnerBelow k (nested n) (nested n') := by
  induction k generalizing n n' with
  | zero => exact ⟨.zero, .zero, .zero, .zero⟩
  | succ k ih =>
    obtain ⟨n, rfl⟩ := Nat.exists_eq_add_of_le' hn
    obtain ⟨n', rfl⟩ := Nat.exists_eq_add_of_le' hn'
    have hInner : InnerBelow k (nested (n + k)) (nested (n' + k)) :=
      ih (Nat.le_add_left k n) (Nat.le_add_left k n')
    exact ⟨Production.below_runOver hInner .condition, Production.below_runOver hInner .logicAtom,
      Production.below_runOver hInner .expr, Production.below_runOver hInner .operand⟩

/-- The productions with as many levels of nesting as the text at hand can take. -/
def productions : Inner where
  condition s := (nested (s.length + 1)).condition s
  logicAtom s := (nested (s.length + 1)).logicAtom s
  expr s := (nested (s.length + 1)).expr s
  operand s := (nested (s.length + 1)).operand s

theorem below_productions (n : Nat) : InnerBelow n productions (nested n) := by
  have hNested : ∀ s : List Char, s.length < n →
      InnerBelow (s.length + 1) (nested (s.length + 1)) (nested n) := fun s hs =>
    below_nested (Nat.le_refl _) hs
  exact
    { condition := fun s hs => (hNested s hs).condition s (Nat.lt_succ_self _)
      logicAtom := fun s hs => (hNested s hs).logicAtom s (Nat.lt_succ_self _)
      expr := fun s hs => (hNested s hs).expr s (Nat.lt_succ_self _)
      operand := fun s hs => (hNested s hs).operand s (Nat.lt_succ_self _) }

namespace Production

/-- The production over the whole circle. -/
def scan (p : Production) : Scan SyntaxTree := p.runOver productions

theorem advances_scan (p : Production) : Advances p.scan :=
  advances_of_agreeBelow fun n s hs =>
    (below_runOver (below_productions n) p).left s (Nat.lt_succ_of_lt hs)

end Production

/-! ## Specifications -/

theorem advances_anyCondition : Advances anyCondition :=
  advances_of_agreeBelow fun n => (below_productions n).condition.left

theorem advances_topic : Advances topic := advances_topicName.map

theorem advances_guard : Advances guard := by
  apply advances_of_agree
  intro m
  apply (advances_literal (by decide)).agree.thenGap
  intro _
  apply advances_anyCondition.weak.require.thenGap
  intro condition
  exact (advances_literal (by decide)).weak.require.map

theorem advances_aliasName : Advances aliasName := by
  apply advances_of_agree
  intro m
  apply agree_gap.bind
  intro _
  apply (advances_keyword (by decide)).agree.thenGap
  intro _
  exact advances_identifier.weak.require.map

theorem advances_message : Advances message := by
  apply advances_of_agree
  intro m
  apply advances_topic.agree.bind
  intro topic
  exact advances_aliasName.optional.map

theorem advances_eventGuard : Advances eventGuard := by
  apply advances_of_agree
  intro m
  apply agree_gap.bind
  exact fun _ => advances_guard.agree

theorem advances_event : Advances event := by
  apply advances_of_agree
  intro m
  apply advances_message.agree.bind
  intro message
  exact advances_eventGuard.optional.map

theorem advances_globalScope : Advances globalScope := (advances_keyword (by decide)).map

theorem advances_activator : Advances activator := advances_event.commit.map

theorem advances_terminator : Advances terminator := advances_event.commit.map

theorem advances_afterUntil : Advances afterUntil := by
  apply advances_of_agree
  intro m
  apply (advances_keyword (by decide)).agree.thenGap
  intro _
  apply advances_activator.weak.thenGap
  intro activator
  apply (advances_keyword (by decide)).optional.bind
  intro until?
  cases until? with
  | none => exact Agree.pure (Nat.le_refl _)
  | some _ =>
    apply agree_gap.bind
    intro _
    exact advances_terminator.weak.map

theorem advances_untilScope : Advances untilScope := by
  apply advances_of_agree
  intro m
  apply (advances_keyword (by decide)).agree.thenGap
  intro _
  exact advances_terminator.weak.map

theorem advances_scope : Advances scope :=
  advances_globalScope.orElse (advances_afterUntil.orElse advances_untilScope)

theorem advances_boundUnit : Advances boundUnit := by
  have hUnit : ∀ (unit : String) (rule : Rule), unit.toList ≠ [] →
      Advances (oneKeyword unit [] >>= fun unit => pure (rule, unit)) := fun unit rule hUnit =>
    (advances_oneKeyword (List.forall_mem_singleton.mpr hUnit)).map
  exact (hUnit "ms" _ (by decide)).orElse ((hUnit "s" _ (by decide)).orElse
    (hUnit "hz" _ (by decide)))

theorem advances_bound : Advances bound := by
  apply advances_of_agree
  intro m
  apply agree_gap.bind
  intro _
  apply (advances_keyword (by decide)).agree.thenGap
  intro _
  apply advances_number.weak.require.thenGap
  intro amount
  exact advances_boundUnit.weak.require.map

theorem advances_unaryPattern {word : String} (hWord : word.toList ≠ []) (rule : Rule) :
    Advances (unaryPattern word rule) := by
  apply advances_of_agree
  intro m
  apply (advances_keyword hWord).agree.thenGap
  intro _
  apply advances_event.weak.commit.bind
  intro behaviour
  exact advances_bound.optional.map

theorem advances_patternKeyword : Advances patternKeyword := by
  have hWord : ∀ (word : String) (rule : Rule), word.toList ≠ [] →
      Advances (keyword word >>= fun _ => pure rule) := fun word rule hWord =>
    (advances_keyword hWord).map
  exact (hWord "causes" _ (by decide)).orElse ((hWord "forbids" _ (by decide)).orElse
    (hWord "requires" _ (by decide)))

theorem advances_binaryPattern : Advances binaryPattern := by
  apply advances_of_agree
  intro m
  apply advances_event.agree.thenGap
  intro first
  apply advances_patternKeyword.weak.require.thenGap
  intro rule
  apply advances_event.weak.commit.bind
  intro second
  exact advances_bound.optional.map

theorem advances_pattern : Advances pattern :=
  (advances_unaryPattern (by decide) _).orElse
    ((advances_unaryPattern (by decide) _).orElse advances_binaryPattern)

theorem advances_property : Advances property := by
  apply advances_of_agree
  intro m
  apply agree_gap.bind
  intro _
  apply advances_scope.agree.require.thenGap
  intro scope
  apply (advances_literal (by decide)).weak.require.thenGap
  intro _
  apply advances_pattern.weak.require.thenGap
  exact fun _ => Agree.pure (Nat.le_refl _)

theorem advances_assumption : Advances Grammar.assumption := by
  apply advances_of_agree
  intro m
  apply agree_gap.bind
  intro _
  apply advances_topic.agree.require.thenGap
  intro topic
  apply advances_guard.weak.require.thenGap
  exact fun _ => Agree.pure (Nat.le_refl _)

theorem advances_topLevelCondition : Advances topLevelCondition := by
  apply advances_of_agree
  intro m
  apply agree_gap.bind
  intro _
  apply advances_anyCondition.agree.thenGap
  exact fun _ => Agree.pure (Nat.le_refl _)

/-- The productions of events, scopes, patterns and whole texts, none of which occurs inside
itself. -/
def specificationProductions : List (Scan SyntaxTree) :=
  [topic, guard, aliasName, message, eventGuard, event, globalScope, activator, terminator,
   afterUntil, untilScope, scope, bound, unaryPattern "some" .existence, unaryPattern "no" .absence,
   binaryPattern, pattern, property, Grammar.assumption, topLevelCondition]

theorem advances_of_mem_specificationProductions {p : Scan SyntaxTree}
    (h : p ∈ specificationProductions) : Advances p := by
  revert p
  simp only [specificationProductions, List.forall_mem_cons, List.not_mem_nil, false_imp_iff,
    implies_true, and_true]
  exact ⟨advances_topic, advances_guard, advances_aliasName, advances_message,
    advances_eventGuard, advances_event, advances_globalScope, advances_activator,
    advances_terminator, advances_afterUntil, advances_untilScope, advances_scope, advances_bound,
    advances_unaryPattern (by decide) _, advances_unaryPattern (by decide) _,
    advances_binaryPattern, advances_pattern, advances_property, advances_assumption,
    advances_topLevelCondition⟩

end TopicSpec.Grammar
