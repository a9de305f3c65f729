import TopicSpec.Proofs.Grammar.ReferenceReading
import TopicSpec.Proofs.Grammar.SetReading

/-! # Reading the text of an expression again

A text that stands in parentheses is read wherever an operand is. What stands without them is in a
position that has room for it, save for the conditions among the members of a set. -/

namespace TopicSpec.Grammar
open Scan TopicSpec.Expr
set_option autoImplicit false

variable {resolver : Option Resolver} {inner : Inner} {e : Expr} {ty : Ty} {s : List Char} {n : Nat}

/-- How the productions answer to the texts of the expressions that are shorter than the bound. -/
structure Inner.Rereads (resolver : Option Resolver) (inner : Inner) (bound : Nat) : Prop where
  condition : ∀ {e ty s}, Written e ty → e.chars.length < bound → Ends s →
    Reads resolver e.SetsPlain e ty (afterGap false s) (inner.condition (e.chars ++ s))
  value : ∀ {e ty s}, Written e ty → e.isCondition = false → e.chars.length < bound → Ends s →
    Reads resolver e.SetsPlain e ty (afterGap false s) (inner.expr (e.chars ++ s))
  member : ∀ {e ty s}, Written e ty → e.chars.length < bound → Ends s →
    ReadsMember resolver (e, ty) (afterGap false s) (inner.expr (e.chars ++ s))
  operand : ∀ {e ty s}, Written e ty → e.isOperand = true → e.chars.length < bound → Ends s →
    ReadsTo resolver e.SetsPlain e ty s (inner.operand (e.chars ++ s))
  enclosedOperand : ∀ {e ty s}, Written e ty → e.chars.length + 1 < bound → Ends s →
    ReadsTo resolver e.SetsPlain e ty s (inner.operand ('(' :: (e.chars ++ ')' :: s)))
  enclosedAtom : ∀ {e ty s}, Written e ty → e.chars.length + 1 < bound → Ends s →
    Reads resolver e.SetsPlain e ty (afterGap false s)
      (inner.logicAtom ('(' :: (e.chars ++ ')' :: s)))
  enclosedCondition : ∀ {e ty s}, Written e ty → e.chars.length + 1 < bound → Ends s →
    Reads resolver e.SetsPlain e ty (afterGap false s)
      (inner.condition ('(' :: (e.chars ++ ')' :: s)))

/-! ## Fronts -/

theorem head_lexeme {l : Literal} (h : l.Written) :
    ∃ c more, l.lexeme.toList = c :: more ∧ (∀ s, afterGap false (c :: s) = c :: s) ∧
      c ∉ ['n', 'f', 'e'] := by
  cases h with
  | constant hWord hRead =>
    rw [lexeme_of_ofConstant hRead]
    simp only [List.mem_cons, List.not_mem_nil, or_false] at hWord
    rcases hWord with rfl | rfl | rfl <;> exact ⟨_, _, rfl, fun _ => rfl, by decide⟩
  | boolean hWord hRead =>
    rw [lexeme_of_ofBoolean hRead]
    simp only [List.mem_cons, List.not_mem_nil, or_false] at hWord
    rcases hWord with rfl | rfl <;> exact ⟨_, _, rfl, fun _ => rfl, by decide⟩
  | quoted hWord hRead =>
    obtain ⟨inner, hText, -⟩ := hWord
    rw [lexeme_of_ofQuoted hRead]
    exact ⟨_, _, hText, fun _ => rfl, by decide⟩
  | number hWord hRead =>
    obtain ⟨c, more, hText, hDigit⟩ := hWord.head
    rw [lexeme_of_ofNumber hRead]
    refine ⟨c, _, hText, fun _ => afterGap_of_class hDigit rfl, fun hMem => ?_⟩
    simp only [List.mem_cons, List.not_mem_nil, or_false] at hMem
    rcases hMem with rfl | rfl | rfl <;> cases hDigit
  | negated _ hNegate =>
    rw [lexeme_of_negate? hNegate, String.toList_append]
    exact ⟨_, _, rfl, fun _ => rfl, by decide⟩

theorem gap_lexeme {l : Literal} (h : l.Written) (s : List Char) :
    afterGap false (l.lexeme.toList ++ s) = l.lexeme.toList ++ s := by
  obtain ⟨c, more, hText, hGap, -⟩ := head_lexeme h
  rw [hText]
  exact hGap _

theorem gap_chars (h : e.Written ty) (s : List Char) :
    afterGap false (e.chars ++ s) = e.chars ++ s := by
  induction h generalizing s with
  | literal hLiteral => exact gap_lexeme hLiteral s
  | @var name _ =>
    rw [chars_var]
    rfl
  | @ownField name hName =>
    rw [chars_ownField]
    exact gap_name hName s
  | @field base name _ _ hBase _ _ _ ih =>
    rw [chars_field s (ne_this_of_isReference hBase)]
    exact ih _
  | index _ _ _ _ _ ih _ =>
    rw [chars_index]
    exact ih _
  | call hName _ _ _ =>
    rw [chars_call]
    exact gap_name hName _
  | @set members _ hNonempty _ _ _ =>
    obtain ⟨first, more, rfl⟩ := List.exists_cons_of_ne_nil hNonempty
    rw [List.map_cons, chars_set]
    rfl
  | @range _ _ excludeLower _ _ _ _ _ _ _ _ _ =>
    rw [chars_range]
    cases excludeLower <;> rfl
  | not _ _ _ =>
    rw [chars_not]
    rfl
  | neg _ _ _ _ =>
    rw [chars_neg]
    rfl
  | binary _ _ _ _ _ =>
    rw [chars_binary]
    rfl
  | @quantified quantifier _ _ _ _ _ _ _ _ _ _ _ _ =>
    rw [chars_quantified]
    cases quantifier <;> rfl

theorem opens_lexeme {l : Literal} (h : l.Written) (s : List Char) :
    Opens (l.lexeme.toList ++ s) := by
  obtain ⟨c, more, hText, -, hHead⟩ := head_lexeme h
  rw [hText]
  exact opens_of_head hHead

/-- The text of an operand opens with no word of another form. -/
theorem opens_chars (h : e.Written ty) (hOperand : e.isOperand = true) (hEnds : Ends s) :
    Opens (e.chars ++ s) := by
  have hReferenceOpens (hReference : e.isReference = true) : Opens (e.chars ++ s) := by
    rcases front_of_reference h hReference hEnds.stopsWord hEnds.no_parenthesis with
      ⟨t, hText⟩ | ⟨name, t, hText, hName, hStops, -⟩
    · rw [hText]
      exact opens_of_head (by decide)
    · rw [hText]
      exact opens_name hName hStops
  cases h with
  | literal hLiteral => exact opens_lexeme hLiteral s
  | var _ => exact hReferenceOpens rfl
  | ownField _ => exact hReferenceOpens rfl
  | field _ _ _ _ => exact hReferenceOpens rfl
  | index _ _ _ _ _ => exact hReferenceOpens rfl
  | call hName _ _ =>
    rw [chars_call]
    exact opens_name hName (stops_cons_iff.mpr (by decide))
  | @set members _ hNonempty _ _ =>
    obtain ⟨first, more, rfl⟩ := List.exists_cons_of_ne_nil hNonempty
    rw [List.map_cons, chars_set]
    exact opens_of_head (by decide)
  | @range _ _ excludeLower _ _ _ _ _ _ _ =>
    rw [chars_range]
    cases excludeLower <;> exact opens_of_head (by decide)
  | neg _ _ _ =>
    rw [chars_neg]
    exact opens_of_head (by decide)
  | _ => cases hOperand

/-! ## Operands -/

theorem readsTo_literal (h : inner.Rereads resolver n) {l : Literal} (hLiteral : l.Written)
    (hLength : l.lexeme.toList.length ≤ n) (hEnds : Ends s) :
    ReadsTo resolver True (.literal l) (.only (Typing.literalKind l.value)) s
      (operand inner (l.lexeme.toList ++ s)) := by
  cases hLiteral with
  | constant hWord hRead =>
    rw [lexeme_of_ofConstant hRead]
    exact readsTo_constant hWord hRead hEnds.stopsWord
  | boolean hWord hRead =>
    rw [lexeme_of_ofBoolean hRead]
    exact readsTo_boolean hWord hRead hEnds.stopsWord
  | quoted hWord hRead =>
    rw [lexeme_of_ofQuoted hRead]
    exact readsTo_quoted hWord hRead
  | number hWord hRead =>
    rw [lexeme_of_ofNumber hRead]
    exact readsTo_number hWord hRead hEnds.stopsNumber
  | @negated positive _ hPositive hNegate =>
    rw [lexeme_of_negate? hNegate, String.toList_append] at hLength ⊢
    have hShorter : (Expr.literal positive).chars.length < n := by
      rw [List.length_append] at hLength
      exact Nat.lt_of_lt_of_le (Nat.lt_add_of_pos_left Nat.zero_lt_one) hLength
    have hOperand := h.operand (.literal hPositive) rfl hShorter hEnds
    refine readsTo_minus (gap_lexeme hPositive s) (hOperand.congr ?_) fun p => ?_
    · exact iff_true_intro (setsPlain_literal positive)
    · rw [Phrase.ofNegativeNumber_literal p hNegate]
      exact Phrase.typed_eq_ok rfl

/-- An operand in parentheses. -/
theorem readsTo_enclosed (h : inner.Rereads resolver n) (hWritten : e.Written ty)
    (hLength : e.chars.length < n) :
    ReadsTo resolver e.SetsPlain e ty s (operand inner ('(' :: (e.chars ++ ')' :: s))) :=
  readsTo_parenthesized (gap_chars hWritten _)
    (h.condition hWritten hLength (ends_mark (by decide)))

theorem length_le_of_mem {m : Expr × Ty} {members : List (Expr × Ty)} (h : m ∈ members) :
    m.1.chars.length ≤ (furtherChars members).length := by
  induction members with
  | nil => cases h
  | cons first members ih =>
    simp only [furtherChars, List.flatMap_cons, List.length_append, List.length_cons] at ih ⊢
    rcases List.mem_cons.mp h with rfl | hMore
    · omega
    · have hRest := ih hMore
      omega

theorem readsTo_operand (h : inner.Rereads resolver n) (hWritten : e.Written ty)
    (hOperand : e.isOperand = true) (hLength : e.chars.length ≤ n) (hEnds : Ends s) :
    ReadsTo resolver e.SetsPlain e ty s (operand inner (e.chars ++ s)) := by
  have hReferenceReads (hReference : e.isReference = true) :
      ReadsTo resolver e.SetsPlain e ty s (operand inner (e.chars ++ s)) := by
    refine readsTo_reference hWritten hReference ?_ hEnds
    intro position positionType hPosition hShorter hNumber
    refine ⟨gap_chars hPosition, fun s => ?_⟩
    exact h.value hPosition (hPosition.isCondition_of_number hNumber) (by omega)
      (ends_mark (by decide))
  cases hWritten with
  | literal hLiteral =>
    exact (readsTo_literal h hLiteral hLength hEnds).congr
      (iff_true_intro (setsPlain_literal _)).symm
  | var _ => exact hReferenceReads rfl
  | ownField _ => exact hReferenceReads rfl
  | field _ _ _ _ => exact hReferenceReads rfl
  | index _ _ _ _ _ => exact hReferenceReads rfl
  | @call function argument argumentType _ hName hArgument hType =>
    rw [length_call] at hLength
    rw [chars_call]
    refine (readsTo_call hName (gap_chars hArgument _) hType
      (h.condition hArgument (by omega) (ends_mark (by decide)))).congr ?_
    rw [setsPlain_call]
  | @set members _ hNonempty hMembers hType =>
    obtain ⟨first, more, rfl⟩ := List.exists_cons_of_ne_nil hNonempty
    have hText : (Expr.set ((first :: more).map (·.1))).chars ++ s =
        '\x7b' :: (first.1.chars ++ (furtherChars more ++ '\x7d' :: s)) := by
      rw [List.map_cons, chars_set, List.flatMap_map]
      rfl
    have hTotal := congrArg List.length hText
    simp only [List.length_append, List.length_cons] at hTotal
    rw [hText]
    refine (readsTo_set (fun m hm => gap_chars (hMembers m hm)) (fun m hm t hEnds => ?_)
      hType).congr ?_
    · have hShorter : m.1.chars.length < n := by
        rcases List.mem_cons.mp hm with rfl | hMore
        · omega
        · have hFurther := length_le_of_mem hMore
          omega
      exact h.member (hMembers m hm) hShorter hEnds
    · rw [setsPlain_set, List.forall_mem_map]
      rfl
  | @range lower upper excludeLower excludeUpper lowerType upperType _ hLower hUpper hType =>
    rw [length_range] at hLength
    obtain ⟨hLowerNumber, hUpperNumber⟩ := Typing.numbers_of_range hType
    have hLowerReads : ∀ t, Reads resolver lower.SetsPlain lower lowerType
        ('t' :: 'o' :: ' ' :: t) (inner.expr (lower.chars ++ ' ' :: 't' :: 'o' :: ' ' :: t)) :=
      fun t => h.value hLower (hLower.isCondition_of_number hLowerNumber) (by omega)
        (.inr (.inr (.inl ⟨t, rfl⟩)))
    have hUpperReads : ∀ t, Reads resolver upper.SetsPlain upper upperType (']' :: t)
        (inner.expr (upper.chars ++ ']' :: t)) :=
      fun t => h.value hUpper (hUpper.isCondition_of_number hUpperNumber) (by omega)
        (ends_mark (by decide))
    rw [chars_range]
    refine (readsTo_range hEnds (gap_chars hLower) (gap_chars hUpper) hType hLowerReads
      hUpperReads).congr ?_
    rw [setsPlain_range]
  | @neg operand _ _ hOperandWritten hKeeps hType =>
    rw [length_neg] at hLength
    rw [chars_neg]
    refine (readsTo_minus rfl (h.enclosedOperand hOperandWritten (by omega) hEnds)
      fun p => ?_).congr ?_
    · rw [Phrase.ofNegativeNumber_eq p hKeeps]
      exact Phrase.typed_eq_ok hType
    · rw [setsPlain_unary]
  | _ => cases hOperand

/-! ## Operators -/

theorem condition_of_declines (h : Declines (oneKeyword "forall" ["exists"]) s) :
    condition inner s = rung inner 7 s := by
  have hNone : optional (quantification inner) s = .accept none s :=
    optional_of_declines (declines_bind h)
  rw [condition, bind_of_accept hNone]
  rfl

theorem Ends.joints_decline (h : Ends s) {i j : Nat} (hj : j ≤ 7) :
    ∀ k, i ≤ k → k < j → Declines (joint k) (afterGap false s) :=
  fun _ _ hk => h.joint_declines (by omega)

theorem reads_enclosed (h : inner.Rereads resolver n) (hWritten : e.Written ty)
    (hLength : e.chars.length < n) (hEnds : Ends s) {j : Nat} (hj : j ≤ 7) :
    Reads resolver e.SetsPlain e ty (afterGap false s)
      (rung inner j ('(' :: (e.chars ++ ')' :: s))) :=
  reads_rung_le (Nat.zero_le j) hj (readsTo_enclosed h hWritten hLength).reads
    (fun _ => (opens_of_head (by decide)).negation) (hEnds.joints_decline hj)

section
variable {op : BinaryOp} {left right : Expr} {leftType rightType : Ty}

/-- The left operand of an operator, on every rung up to that of the operator. -/
theorem reads_left (h : inner.Rereads resolver n) (hLeft : left.Written leftType)
    (hLength : left.chars.length < n) {j : Nat} (hj : j ≤ jointOf op) (rest : List Char) :
    Reads resolver left.SetsPlain left leftType (op.symbol.toList ++ ' ' :: rest)
      (rung inner j
        ('(' :: (left.chars ++ ')' :: ' ' :: (op.symbol.toList ++ ' ' :: rest)))) := by
  have hGap : afterGap false (' ' :: (op.symbol.toList ++ ' ' :: rest)) =
      op.symbol.toList ++ ' ' :: rest := by cases op <;> rfl
  have hOperand : Reads resolver left.SetsPlain left leftType (op.symbol.toList ++ ' ' :: rest)
      (rung inner 0
        ('(' :: (left.chars ++ ')' :: ' ' :: (op.symbol.toList ++ ' ' :: rest)))) := by
    have hRead := (readsTo_enclosed (s := ' ' :: (op.symbol.toList ++ ' ' :: rest)) h hLeft
      hLength).reads
    rwa [hGap] at hRead
  have hJoint := jointOf_le op
  exact reads_rung_le (Nat.zero_le j) (by omega) hOperand
    (fun _ => (opens_of_head (by decide)).negation) fun k _ hk => joint_declines_below (by omega) rest

theorem reads_binary (h : inner.Rereads resolver n) (hLeft : left.Written leftType)
    (hRight : right.Written rightType)
    (hType : Typing.nodeType (.binary op left right) [leftType, rightType] = .ok ty)
    (hLength : (Expr.binary op left right).chars.length ≤ n) (hEnds : Ends s) {j : Nat}
    (hij : jointOf op + 1 ≤ j) (hj : j ≤ 7) :
    Reads resolver (Expr.binary op left right).SetsPlain (.binary op left right) ty
      (afterGap false s) (rung inner j ((Expr.binary op left right).chars ++ s)) := by
  rw [length_binary] at hLength
  have hJoint := jointOf_le op
  rw [chars_binary]
  have hFront : Reads resolver left.SetsPlain left leftType
      (op.symbol.toList ++ ' ' :: '(' :: (right.chars ++ ')' :: s)) (rung inner (jointOf op) _) :=
    reads_left h hLeft (by omega) (Nat.le_refl _) ('(' :: (right.chars ++ ')' :: s))
  have hBack : Reads resolver right.SetsPlain right rightType (afterGap false s)
      (rung inner (jointOf op) (afterGap false (' ' :: '(' :: (right.chars ++ ')' :: s)))) :=
    reads_enclosed h hRight (by omega) hEnds (by omega)
  have hNot : Declines (keyword "not") ('(' :: (left.chars ++ ')' :: ' ' ::
      (op.symbol.toList ++ ' ' :: '(' :: (right.chars ++ ')' :: s)))) :=
    (opens_of_head (by decide)).negation
  have hLinked := reads_rung_linked rfl hFront hBack hNot (hEnds.joint_declines (jointOf_le op))
    hType
  have hAll := reads_rung_le hij hj hLinked (fun _ => hNot) (hEnds.joints_decline hj)
  exact hAll.imp setsPlain_binary.symm fun _ _ hRead => hRead

/-- A comparison or connective leaves its operator behind where a value is read. -/
theorem readsMember_binary (h : inner.Rereads resolver n) (hLeft : left.Written leftType)
    (hLength : (Expr.binary op left right).chars.length ≤ n) (hOp : op.isCondition = true) :
    ReadsMember resolver (.binary op left right, ty) (afterGap false s)
      (expr inner ((Expr.binary op left right).chars ++ s)) := by
  rw [length_binary] at hLength
  have hNotPlain : ¬IsPlainValue (.binary op left right) := by
    rintro ⟨hValue, -⟩
    rw [show (Expr.binary op left right).isCondition = op.isCondition from rfl, hOp] at hValue
    cases hValue
  have hJoint : 3 ≤ jointOf op := by cases op <;> first | decide | cases hOp
  have hStuck : Stuck (op.symbol.toList ++ ' ' :: '(' :: (right.chars ++ ')' :: s)) := by
    intro t
    cases op <;> exact ⟨nofun, nofun⟩
  have hRead : Reads resolver left.SetsPlain left leftType _ (expr inner _) :=
    reads_left h hLeft (by omega) hJoint ('(' :: (right.chars ++ ')' :: s))
  rw [chars_binary]
  cases hRun : expr inner _ with
  | reject committed expected rest => exact hNotPlain
  | accept tree rest =>
    rw [hRun] at hRead
    refine .inr ⟨hNotPlain, ?_⟩
    rw [hRead.2.1]
    exact hStuck

end

/-! ## Negations and quantifications -/

theorem reads_not (h : inner.Rereads resolver n) {operand : Expr} {operandType : Ty}
    (hOperand : operand.Written operandType)
    (hType : Typing.nodeType (.unary .not operand) [operandType] = .ok ty)
    (hLength : (Expr.unary .not operand).chars.length ≤ n) (hEnds : Ends s) {j : Nat}
    (hij : 4 ≤ j) (hj : j ≤ 7) :
    Reads resolver (Expr.unary .not operand).SetsPlain (.unary .not operand) ty (afterGap false s)
      (rung inner j ((Expr.unary .not operand).chars ++ s)) := by
  rw [length_not] at hLength
  have hRead := h.enclosedAtom hOperand (by omega) hEnds
  generalize hAfter : '(' :: (operand.chars ++ ')' :: s) = text at hRead
  have hWord : keyword "not" ('n' :: 'o' :: 't' :: ' ' :: text) = .accept () (' ' :: text) := rfl
  have hGap : gap (' ' :: text) = .accept () text := by
    rw [← hAfter]
    rfl
  have hNegation : Reads resolver operand.SetsPlain (.unary .not operand) ty (afterGap false s)
      (negation inner ('n' :: 'o' :: 't' :: ' ' :: text)) := by
    refine settles_bind_of_accept hWord ?_
    refine settles_bind_of_accept hGap ?_
    refine settles_bind_pure (settles_require hRead) ?_
    rintro tree rest ⟨hRest, hTree⟩
    refine ⟨_, rest, rfl, hRest, ?_⟩
    rw [Phrase.ofTree_two (Phrase.ofTree_leaf _) hTree]
    exact Phrase.typed_eq_ok hType
  have hAtom : Reads resolver operand.SetsPlain (.unary .not operand) ty (afterGap false s)
      (rung inner 4 ('n' :: 'o' :: 't' :: ' ' :: text)) := settles_orElse hNegation
  rw [chars_not, hAfter]
  have hAll := reads_rung_le hij hj hAtom (fun hAtom => absurd hAtom (by decide))
    (hEnds.joints_decline hj)
  exact hAll.imp setsPlain_unary.symm fun _ _ hRead => hRead

theorem ofQuantification_eq {rule : Rule} (quantifier : Quantifier) (bound : String)
    {domain body : Expr} {domainType bodyType : Ty} :
    Phrase.ofQuantification rule [.token ⟨.quantifier, quantifier.word⟩, .token ⟨.name, bound⟩,
      .expr domain domainType, .expr body bodyType] =
      Phrase.typed (.quantified quantifier bound domain body) [domainType, bodyType] := by
  cases quantifier <;> rfl

theorem reads_quantified (h : inner.Rereads resolver n) {quantifier : Quantifier} {bound : String}
    {domain body : Expr} {domainType bodyType : Ty} (hName : IsName bound.toList)
    (hDomain : domain.Written domainType) (hBody : body.Written bodyType)
    (hType : Typing.nodeType (.quantified quantifier bound domain body) [domainType, bodyType] =
      .ok ty)
    (hLength : (Expr.quantified quantifier bound domain body).chars.length ≤ n) (hEnds : Ends s) :
    Reads resolver (Expr.quantified quantifier bound domain body).SetsPlain
      (.quantified quantifier bound domain body) ty (afterGap false s)
      (condition inner ((Expr.quantified quantifier bound domain body).chars ++ s)) := by
  rw [length_quantified] at hLength
  have hBodyRead := h.enclosedCondition hBody (by omega) hEnds
  have hDomainRead := h.operand (s := ':' :: ' ' :: '(' :: (body.chars ++ ')' :: s)) hDomain
    (hDomain.isOperand_of_array (Typing.array_of_quantified hType)) (by omega)
    (ends_mark (by decide))
  have hDomainGap := gap_chars hDomain (':' :: ' ' :: '(' :: (body.chars ++ ')' :: s))
  rw [chars_quantified]
  generalize hLast : '(' :: (body.chars ++ ')' :: s) = last at *
  generalize hMiddle : domain.chars ++ ':' :: ' ' :: last = middle at *
  have hQuantifier : oneKeyword "forall" ["exists"] (quantifier.word.toList ++
      ' ' :: (bound.toList ++ ' ' :: 'i' :: 'n' :: ' ' :: middle)) =
      .accept quantifier.word (' ' :: (bound.toList ++ ' ' :: 'i' :: 'n' :: ' ' :: middle)) := by
    cases quantifier <;> rfl
  have hBoundGap : gap (' ' :: (bound.toList ++ ' ' :: 'i' :: 'n' :: ' ' :: middle)) =
      .accept () (bound.toList ++ ' ' :: 'i' :: 'n' :: ' ' :: middle) := by
    show Outcome.accept () (afterGap false (bound.toList ++ _)) = _
    rw [gap_name hName]
  have hBound : require .quantified name (bound.toList ++ ' ' :: 'i' :: 'n' :: ' ' :: middle) =
      .accept bound.toList (' ' :: 'i' :: 'n' :: ' ' :: middle) :=
    require_eq_accept_iff.mpr
      (name_eq_accept_iff.mpr ⟨rfl, hName, stops_cons_iff.mpr (by decide)⟩)
  have hIn : require .keywordIn (keyword "in") ('i' :: 'n' :: ' ' :: middle) =
      .accept () (' ' :: middle) := rfl
  have hInGap : gap (' ' :: middle) = .accept () middle := by
    show Outcome.accept () (afterGap false middle) = _
    rw [hDomainGap]
  have hColon : require .colon (literal ":") (':' :: ' ' :: last) = .accept () (' ' :: last) := rfl
  have hLastGap : gap (' ' :: last) = .accept () last := by
    rw [← hLast]
    rfl
  have hQuantification : Reads resolver (domain.SetsPlain ∧ body.SetsPlain)
      (.quantified quantifier bound domain body) ty (afterGap false s)
      (quantification inner (quantifier.word.toList ++
        ' ' :: (bound.toList ++ ' ' :: 'i' :: 'n' :: ' ' :: middle))) := by
    refine settles_bind_of_accept hQuantifier ?_
    refine settles_bind_of_accept hBoundGap ?_
    refine settles_bind_of_accept hBound ?_
    refine settles_bind_of_accept (a := ()) (t := 'i' :: 'n' :: ' ' :: middle) rfl ?_
    refine settles_bind_of_accept hIn ?_
    refine settles_bind_of_accept hInGap ?_
    refine settles_bind (settles_require hDomainRead) ?_
    rintro domainTree _ ⟨rfl, hDomainTree⟩
    refine settles_bind_of_accept (a := ()) (t := ':' :: ' ' :: last) rfl ?_
    refine settles_bind_of_accept hColon ?_
    refine settles_bind_of_accept hLastGap ?_
    refine settles_bind_pure (settles_commit hBodyRead) ?_
    rintro bodyTree rest ⟨hRest, hBodyTree⟩
    refine ⟨_, rest, rfl, hRest, ?_⟩
    rw [SyntaxTree.token, String.ofList_toList, Phrase.ofTree_four (Phrase.ofTree_leaf _)
      (Phrase.ofTree_leaf _) hDomainTree hBodyTree]
    exact (ofQuantification_eq quantifier bound).trans (Phrase.typed_eq_ok hType)
  refine settles_bind_pure (settles_optional (hQuantification.imp setsPlain_quantified.symm
    fun _ _ hRead => hRead)) ?_
  rintro _ rest ⟨tree, rfl, hRest, hTree⟩
  refine ⟨_, rest, rfl, hRest, ?_⟩
  rw [Phrase.ofTree_one hTree]
  rfl

/-! ## Levels of nesting -/

theorem reads_condition (h : inner.Rereads resolver n) (hWritten : e.Written ty)
    (hLength : e.chars.length ≤ n) (hEnds : Ends s) :
    Reads resolver e.SetsPlain e ty (afterGap false s) (condition inner (e.chars ++ s)) := by
  cases hOperand : e.isOperand with
  | true =>
    have hOpens := opens_chars hWritten hOperand hEnds
    rw [condition_of_declines hOpens.quantifier]
    exact reads_rung_le (Nat.zero_le 7) (Nat.le_refl 7)
      (readsTo_operand h hWritten hOperand hLength hEnds).reads (fun _ => hOpens.negation)
      (hEnds.joints_decline (Nat.le_refl 7))
  | false =>
    cases hWritten with
    | @binary op left right _ _ _ hLeft hRight hType =>
      have hOpens : Declines (oneKeyword "forall" ["exists"])
          ((Expr.binary op left right).chars ++ s) := by
        rw [chars_binary]
        exact (opens_of_head (by decide)).quantifier
      have hJoint := jointOf_le op
      rw [condition_of_declines hOpens]
      exact reads_binary h hLeft hRight hType hLength hEnds (by omega) (Nat.le_refl 7)
    | @not operand _ _ hOperandWritten hType =>
      have hOpens : Declines (oneKeyword "forall" ["exists"])
          ((Expr.unary .not operand).chars ++ s) := by
        rw [chars_not]
        exact ⟨_, _, rfl⟩
      rw [condition_of_declines hOpens]
      exact reads_not h hOperandWritten hType hLength hEnds (by decide) (Nat.le_refl 7)
    | quantified hName hDomain hBody hType =>
      exact reads_quantified h hName hDomain hBody hType hLength hEnds
    | _ => cases hOperand

theorem reads_value (h : inner.Rereads resolver n) (hWritten : e.Written ty)
    (hValue : e.isCondition = false) (hLength : e.chars.length ≤ n) (hEnds : Ends s) :
    Reads resolver e.SetsPlain e ty (afterGap false s) (expr inner (e.chars ++ s)) := by
  cases hOperand : e.isOperand with
  | true =>
    have hOpens := opens_chars hWritten hOperand hEnds
    have hAll := reads_rung_le (j := 3) (Nat.zero_le 3) (by decide)
      (readsTo_operand h hWritten hOperand hLength hEnds).reads (fun _ => hOpens.negation)
      (hEnds.joints_decline (by decide))
    exact hAll
  | false =>
    cases hWritten with
    | @binary op _ _ _ _ _ hLeft hRight hType =>
      have hOp : op.isCondition = false := hValue
      have hJoint : jointOf op + 1 ≤ 3 := by cases op <;> first | decide | cases hOp
      exact reads_binary h hLeft hRight hType hLength hEnds hJoint (by decide)
    | not _ _ => cases hValue
    | quantified _ _ _ _ => cases hValue
    | _ => cases hOperand

theorem readsMember (h : inner.Rereads resolver n) (hWritten : e.Written ty)
    (hLength : e.chars.length ≤ n) (hEnds : Ends s) :
    ReadsMember resolver (e, ty) (afterGap false s) (expr inner (e.chars ++ s)) := by
  have hDeclines (hCondition : e.isCondition = true)
      (hOperand : Declines (operand inner) (e.chars ++ s)) :
      ReadsMember resolver (e, ty) (afterGap false s) (expr inner (e.chars ++ s)) := by
    obtain ⟨expected, rest, hReject⟩ : Declines (expr inner) (e.chars ++ s) :=
      declines_bind (declines_bind (declines_bind hOperand))
    rw [hReject]
    rintro ⟨hValue, -⟩
    rw [hCondition] at hValue
    cases hValue
  cases hCondition : e.isCondition with
  | false => exact readsMember_of_reads hCondition (reads_value h hWritten hCondition hLength hEnds)
  | true =>
    cases hWritten with
    | binary hLeft _ _ => exact readsMember_binary h hLeft hLength hCondition
    | not _ _ =>
      refine hDeclines hCondition ?_
      rw [chars_not]
      exact ⟨_, _, rfl⟩
    | @quantified quantifier _ _ _ _ _ _ _ _ _ _ =>
      refine hDeclines hCondition ?_
      rw [chars_quantified]
      cases quantifier <;> exact ⟨_, _, rfl⟩
    | _ => cases hCondition

theorem rereads_succ (h : inner.Rereads resolver n) :
    Inner.Rereads resolver ⟨condition inner, logicAtom inner, expr inner, operand inner⟩
      (n + 1) where
  condition hWritten hLength hEnds := reads_condition h hWritten (Nat.le_of_lt_succ hLength) hEnds
  value hWritten hValue hLength hEnds :=
    reads_value h hWritten hValue (Nat.le_of_lt_succ hLength) hEnds
  member hWritten hLength hEnds := readsMember h hWritten (Nat.le_of_lt_succ hLength) hEnds
  operand hWritten hOperand hLength hEnds :=
    readsTo_operand h hWritten hOperand (Nat.le_of_lt_succ hLength) hEnds
  enclosedOperand hWritten hLength _ := readsTo_enclosed h hWritten (Nat.lt_of_succ_lt_succ hLength)
  enclosedAtom hWritten hLength hEnds :=
    reads_enclosed h hWritten (Nat.lt_of_succ_lt_succ hLength) hEnds (show 4 ≤ 7 by decide)
  enclosedCondition {e _ s} hWritten hLength hEnds := by
    have hOpens : Opens ('(' :: (e.chars ++ ')' :: s)) := opens_of_head (by decide)
    have hRead := reads_enclosed h hWritten (Nat.lt_of_succ_lt_succ hLength) hEnds (Nat.le_refl 7)
    rwa [← condition_of_declines hOpens.quantifier] at hRead

/-- Every level reads the expressions that are not longer than its nesting allows. -/
theorem nested_rereads (n : Nat) : (nested n).Rereads resolver n := by
  induction n with
  | zero =>
    constructor
    all_goals
      intros
      contradiction
  | succ n ih => exact rereads_succ ih

end TopicSpec.Grammar
