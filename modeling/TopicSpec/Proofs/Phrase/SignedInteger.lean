import TopicSpec.Proofs.Grammar.Layout
import TopicSpec.Proofs.Phrase.Integrity
import TopicSpec.Proofs.Phrase.Parentheses
import TopicSpec.Proofs.Phrase.RoundTrip
import TopicSpec.Proofs.Typing.Narrowing

/-! # Integers behind minus signs

Digits have a limit before their signs are looked at, so the least integer is never written, and
every sign can be taken into the literal behind it. -/

namespace TopicSpec
open Grammar Scan
set_option autoImplicit false

/-- Minus signs with digits behind them, and gaps behind the signs. -/
inductive SignedDigits (digits : List Char) : Nat → List Char → Prop
  | bare : SignedDigits digits 0 digits
  | sign {k : Nat} {s m : List Char} :
    Gap s m → SignedDigits digits k m → SignedDigits digits (k + 1) ('-' :: s)

namespace Literal

variable {digits : List Char} {k : Nat}

/-- The literal of digits with so many minus signs before them. -/
def signed (digits : List Char) (k : Nat) : Literal :=
  ⟨String.ofList (List.replicate k '-' ++ digits), .int ((-1) ^ k * Double.ofDigits digits)⟩

theorem negate?_signed (h : Double.ofDigits digits < integerLimit) :
    (signed digits k).negate? = some (signed digits (k + 1)) := by
  have hLexeme : "-" ++ String.ofList (List.replicate k '-' ++ digits) =
      String.ofList (List.replicate (k + 1) '-' ++ digits) := by
    rw [List.replicate_succ, List.cons_append, ← String.toList_inj]
    simp
  have hValue : -((-1) ^ k * (Double.ofDigits digits : Int)) =
      (-1) ^ (k + 1) * Double.ofDigits digits := by
    rw [pow_succ, mul_neg_one, neg_mul]
  have hInside : (-1) ^ k * (Double.ofDigits digits : Int) ≠ -(integerLimit : Int) := by
    intro hLeast
    have hMagnitude := congrArg Int.natAbs hLeast
    rw [Int.natAbs_mul, Int.natAbs_pow, Int.natAbs_neg, Int.natAbs_natCast, Int.natAbs_neg,
      Int.natAbs_one, one_pow, one_mul, Int.natAbs_natCast] at hMagnitude
    exact h.ne hMagnitude
  simp only [negate?, signed, if_neg hInside, hLexeme, hValue]

theorem ofNumber_digits (hDigits : IsDigits digits) :
    ofNumber (String.ofList digits) =
      if Double.ofDigits digits < integerLimit then .ok (signed digits 0)
      else .error (.binding (.integerOutOfRange (String.ofList digits))) := by
  obtain ⟨hNonempty, hAll⟩ := hDigits
  simp [ofNumber, signed, hNonempty, List.all_eq_true.mpr hAll]

end Literal

/-- What is said by digits behind minus signs. -/
def integerAnswer (digits : List Char) (k : Nat) : Except SpecError (Expr × Ty) :=
  if Double.ofDigits digits < Literal.integerLimit then
    .ok (.literal (.signed digits k), .only .number)
  else .error (.binding (.integerOutOfRange (String.ofList digits)))

namespace Phrase

variable {answer : Except SpecError (Expr × Ty)} {tree : SyntaxTree} {digits : List Char} {k : Nat}

/-- Every resolver makes the same answer of the tree: an expression, or an error. -/
def Says (answer : Except SpecError (Expr × Ty)) (tree : SyntaxTree) : Prop :=
  ∀ resolver, ofTree resolver tree = answer.map fun found => .expr found.1 found.2

theorem Says.lone (h : Says answer tree) (k : Nat) : Says answer (.node (jointRule k) [tree]) := by
  intro resolver
  rw [ofTree_wrapped, h resolver]
  intro phrase hPhrase
  rw [h resolver] at hPhrase
  obtain ⟨⟨e, ty⟩, -, rfl⟩ := ok_of_map hPhrase
  exact ⟨e, ty, rfl⟩

theorem says_number (hDigits : IsDigits digits) :
    Says (integerAnswer digits 0) (.node .number [.token .number digits]) := by
  intro resolver
  rw [SyntaxTree.token, ofTree_one (ofTree_leaf _)]
  show ofLiteral .number .number Literal.ofNumber [.token ⟨.number, String.ofList digits⟩] = _
  have hRead := Literal.ofNumber_digits hDigits
  unfold integerAnswer
  split at hRead
  case isTrue hLess =>
    rw [if_pos hLess, ofLiteral_eq_ok hRead]
    rfl
  case isFalse hNot =>
    rw [if_neg hNot]
    simp only [ofLiteral, toToken, if_true, ok_bind, hRead]
    rfl

theorem Says.negative (h : Says (integerAnswer digits k) tree) :
    Says (integerAnswer digits (k + 1))
      (.node .negativeNumber [.leaf ⟨.operator, "-"⟩, tree]) := by
  intro resolver
  have hTree := h resolver
  unfold integerAnswer at hTree ⊢
  split at hTree
  case isTrue hLess =>
    rw [if_pos hLess, ofTree_two (ofTree_leaf _) hTree]
    have hNegative := Literal.negate?_signed (k := k) hLess
    exact (ofNegativeNumber_literal (.token ⟨.operator, "-"⟩) hNegative).trans (typed_eq_ok rfl)
  case isFalse hNot =>
    rw [if_neg hNot, ofTree, ofTrees, ofTrees, hTree]
    rfl

end Phrase

namespace Grammar

variable {answer : Except SpecError (Expr × Ty)} {inner : Inner} {digits s left : List Char}
  {k n : Nat}

/-- The scanner reads a tree that says so, up to a gap before what is given. -/
def Answers (answer : Except SpecError (Expr × Ty)) (left : List Char) :
    Outcome SyntaxTree → Prop :=
  Settles True fun tree rest => afterGap false rest = left ∧ Phrase.Says answer tree

theorem answers_rung_le {i j : Nat} (hij : i ≤ j) (hj : j ≤ 7)
    (h : Answers answer left (rung inner i s)) (hNot : i ≤ 3 → Declines (keyword "not") s)
    (hEnd : ∀ k, i ≤ k → k < j → Declines (joint k) left) :
    Answers answer left (rung inner j s) :=
  settles_rung_le (fun k _ hTree => hTree.lone k) hij hj h hNot hEnd

/-- No gap and no word stands before the signs and digits. -/
theorem front_of_signedDigits (hDigits : IsDigits digits) (h : SignedDigits digits k s) :
    afterGap false s = s ∧ Opens s := by
  cases h with
  | bare =>
    obtain ⟨c, more, rfl, hDigit⟩ := hDigits.head
    refine ⟨afterGap_of_class hDigit rfl, opens_of_head fun hMem => ?_⟩
    simp only [List.mem_cons, List.not_mem_nil, or_false] at hMem
    rcases hMem with rfl | rfl | rfl <;> cases hDigit
  | sign => exact ⟨rfl, opens_of_head (by decide)⟩

theorem length_of_signedDigits (h : SignedDigits digits k s) : k ≤ s.length := by
  induction h with
  | bare => exact Nat.zero_le _
  | sign hGap _ ih => exact Nat.succ_le_succ (ih.trans (suffix_of_gap hGap).length_le)

/-- Signs are read from the outside in, and each of them is one level of nesting. -/
theorem answers_signedDigits (hDigits : IsDigits digits) (h : SignedDigits digits k s)
    (hn : k ≤ n) : Answers (integerAnswer digits k) [] (operand (nested n) s) := by
  induction h generalizing n with
  | bare =>
    obtain ⟨c, more, rfl, hDigit⟩ := hDigits.head
    obtain ⟨others, hOperand⟩ : ∃ others, operand (nested n) (c :: more) =
      expecting .value (firstOf number others) (c :: more) := operand_of_digit hDigit
    have hWord : IsNumber (c :: more) :=
      ⟨c :: more, [], [], by simp, hDigits, .inl rfl, .inl rfl⟩
    have hNumber : Scan.number (c :: more) = .accept (c :: more) [] := by
      have hRead := number_append hWord (stops_nil continuesNumber)
      rwa [List.append_nil] at hRead
    rw [hOperand]
    refine settles_expecting (settles_firstOf ?_)
    exact settles_of_accept (bind_of_accept hNumber) trivial ⟨rfl, Phrase.says_number hDigits⟩
  | @sign k s m hGap hRest ih =>
    -- a sign takes one level, which leaves as many as there are signs behind it
    obtain ⟨n, rfl⟩ := Nat.exists_eq_succ_of_ne_zero (by omega : n ≠ 0)
    obtain ⟨others, hOperand⟩ : ∃ others, operand (nested (n + 1)) ('-' :: s) =
      expecting .value (firstOf (negativeNumber (nested (n + 1))) others) ('-' :: s) :=
      operand_of_minus s
    have hSkip : gap s = .accept () m := by
      rw [gap_eq_accept, afterGap_of_gap hGap, (front_of_signedDigits hDigits hRest).1]
    rw [hOperand]
    refine settles_expecting (settles_firstOf ?_)
    refine settles_bind_of_accept (a := ()) (t := s) rfl ?_
    refine settles_bind_of_accept hSkip ?_
    refine settles_bind_pure (settles_commit (ih (by omega))) ?_
    rintro tree rest ⟨hLeft, hSays⟩
    exact ⟨_, rest, rfl, hLeft, hSays.negative⟩

/-- The text of a comparison of a field with what is given. -/
abbrev comparisonText (s : List Char) : List Char := 'x' :: ' ' :: '=' :: ' ' :: s

/-- The tree of the field, as it is compared. -/
def fieldTree : SyntaxTree := lifted (.node .ownField [.leaf ⟨.name, "x"⟩]) 3

/-- What is said by the comparison of the field with digits behind minus signs. -/
def comparisonAnswer (digits : List Char) (k : Nat) : Except SpecError (Expr × Ty) :=
  (integerAnswer digits k).map fun found => (.binary .eq (.field .this "x") found.1, .only .bool)

theorem says_comparison {right : SyntaxTree} (h : Phrase.Says (integerAnswer digits k) right) :
    Phrase.Says (comparisonAnswer digits k)
      (.node .atomicCondition [fieldTree, .leaf ⟨.operator, "="⟩, right]) := by
  intro resolver
  have hLeft : Phrase.ofTree resolver fieldTree = .ok (.expr (.field .this "x") .any) := rfl
  have hRight := h resolver
  unfold comparisonAnswer
  unfold integerAnswer at hRight ⊢
  split at hRight
  case isTrue hLess =>
    have hType : Typing.nodeType
        (.binary .eq (.field .this "x") (.literal (.signed digits k))) [.any, .only .number] =
        .ok (.only .bool) := rfl
    rw [if_pos hLess]
    exact ofTree_linked (k := 3) hLeft hRight hType
  case isFalse hNot =>
    rw [if_neg hNot, Phrase.ofTree]
    simp only [Phrase.ofTrees, hLeft, hRight, Phrase.ofTree_leaf, ok_bind]
    rfl

theorem answers_comparison (hDigits : IsDigits digits) (h : SignedDigits digits k s) (hn : k ≤ n) :
    Answers (comparisonAnswer digits k) [] (condition (nested n) (comparisonText s)) := by
  obtain ⟨hFront, hOpens⟩ := front_of_signedDigits hDigits h
  have hEnd : ∀ i, i ≤ 6 → Declines (joint i) [] := fun i hi =>
    Ends.joint_declines (s := []) (.inl rfl) hi
  have hLeft : expr (nested n) (comparisonText s) = .accept fieldTree ('=' :: ' ' :: s) := rfl
  have hRight : Answers (integerAnswer digits k) [] (rung (nested n) 3 s) :=
    answers_rung_le (Nat.zero_le 3) (by decide) (answers_signedDigits hDigits h hn)
      (fun _ => hOpens.negation) fun i _ hi => hEnd i (by omega)
  have hAtom : Answers (comparisonAnswer digits k) []
      (atomicCondition (nested n) (comparisonText s)) := by
    have hSkip : gap (' ' :: s) = .accept () s := congrArg (Outcome.accept ()) hFront
    refine settles_bind_of_accept hLeft ?_
    refine settles_bind_of_accept (a := ()) (t := '=' :: ' ' :: s) rfl ?_
    refine settles_bind_of_accept (a := some "=") (t := ' ' :: s) rfl ?_
    refine settles_bind_of_accept hSkip ?_
    refine settles_bind_pure (settles_require hRight) ?_
    rintro right rest ⟨hRest, hSays⟩
    exact ⟨_, rest, rfl, hRest, says_comparison hSays⟩
  have hText : Opens (comparisonText s) := opens_of_head (by decide)
  have hRung : Answers (comparisonAnswer digits k) [] (rung (nested n) 4 (comparisonText s)) := by
    show Answers _ _ (logicAtom (nested n) (comparisonText s))
    rwa [logicAtom_of_declines hText.negation]
  rw [condition_of_declines hText.quantifier]
  exact answers_rung_le (by decide : 4 ≤ 7) (Nat.le_refl 7) hRung (fun hLow => absurd hLow (by decide))
    fun i _ hi => hEnd i (by omega)

end Grammar

theorem ofText_signedDigits (resolver : Option Resolver) {digits s : List Char} {k : Nat}
    (hDigits : IsDigits digits) (h : SignedDigits digits k s) :
    Expr.ofText resolver (String.ofList (comparisonText s)) =
      if Double.ofDigits digits < Literal.integerLimit then
        .ok (.binary .eq (.field .this "x") (.literal (.signed digits k)))
      else .error (.binding (.integerOutOfRange (String.ofList digits))) := by
  have hDeep : k ≤ (comparisonText s).length :=
    (length_of_signedDigits h).trans (Nat.le_add_right _ 4)
  obtain ⟨tree, rest, hTree, hRest, hSays⟩ :=
    accept_of_settles (answers_comparison hDigits h hDeep) trivial
  have hRead : readTree .predicate (String.ofList (comparisonText s)) =
      .ok (.node .topLevelCondition [tree]) := by
    refine readTree_eq_ok_iff.mpr ?_
    rw [String.toList_ofList]
    exact topLevelCondition_eq_accept_iff.mpr ⟨rest, hTree, hRest⟩
  have hPhrase := hSays resolver
  rw [Expr.ofText, hRead, ok_bind, SyntaxTree.toCondition]
  unfold comparisonAnswer integerAnswer at hPhrase
  split at hPhrase
  case isTrue hLess =>
    have hTyping : (Typing.Environment.withResolver resolver).checkCondition
        (.binary .eq (.field .this "x") (.literal (.signed digits k))) = .ok () := by
      cases resolver <;> rfl
    rw [if_pos hLess, Phrase.ofTree_one hPhrase]
    simp only [Phrase.ofNode, ofTopLevelCondition_eq_ok rfl hTyping, ok_bind]
    rfl
  case isFalse hNot =>
    rw [if_neg hNot, Phrase.ofTree]
    simp only [Phrase.ofTrees, hPhrase]
    rfl

/-! ## Literals of any text -/

theorem LiteralValue.iterate_neg_int (k : Nat) (n : Int) :
    neg^[k] (.int n) = .int ((-1) ^ k * n) := by
  induction k with
  | zero => rw [pow_zero, one_mul, Function.iterate_zero_apply]
  | succ k ih => rw [Function.iterate_succ_apply', ih, neg, pow_succ, mul_neg_one, neg_mul]

theorem Token.Denotes.not_sign {token : Token} {value : LiteralValue} (h : token.Denotes value) :
    ∀ more, token.text.toList ≠ '-' :: more := by
  intro more hSign
  cases h with
  | circle | infinite | undefined => cases hSign
  | boolean b => cases b <;> cases hSign
  | quoted =>
    rw [String.toList_ofList] at hSign
    cases hSign
  | integer hDigits =>
    rw [String.toList_ofList] at hSign
    subst hSign
    cases hDigits.2 '-' List.mem_cons_self
  | decimal hNumber =>
    obtain ⟨c, more', hWord, hDigit⟩ := hNumber.head
    rw [String.toList_ofList, hWord] at hSign
    obtain ⟨rfl, -⟩ := List.cons.inj hSign
    cases hDigit

theorem Token.Denotes.value_of_digits {token : Token} {value : LiteralValue}
    (h : token.Denotes value) (hDigits : IsDigits token.text.toList) :
    value = .int (Double.ofDigits token.text.toList) := by
  cases h with
  | circle => cases hDigits.2 'P' List.mem_cons_self
  | infinite => cases hDigits.2 'I' List.mem_cons_self
  | undefined => cases hDigits.2 'N' List.mem_cons_self
  | boolean b =>
    cases b with
    | true => cases hDigits.2 'T' List.mem_cons_self
    | false => cases hDigits.2 'F' List.mem_cons_self
  | quoted =>
    rw [String.toList_ofList] at hDigits
    cases hDigits.2 '"' List.mem_cons_self
  | integer => rw [String.toList_ofList]
  | decimal _ hOther =>
    rw [String.toList_ofList] at hDigits
    exact absurd hDigits hOther

/-- Signs end where something else begins. -/
theorem signs_append_inj {j k : Nat} {a b : List Char} (ha : ∀ more, a ≠ '-' :: more)
    (hb : ∀ more, b ≠ '-' :: more)
    (h : List.replicate j '-' ++ a = List.replicate k '-' ++ b) : j = k ∧ a = b := by
  induction j generalizing k with
  | zero =>
    cases k with
    | zero => exact ⟨rfl, h⟩
    | succ k => exact absurd h (ha _)
  | succ j ih =>
    cases k with
    | zero => exact absurd h.symm (hb _)
    | succ k =>
      obtain ⟨rfl, rfl⟩ := ih (List.cons.inj h).2
      exact ⟨rfl, rfl⟩

namespace Literal

variable {l : Literal} {digits : List Char} {k : Nat}

/-- A literal with the lexeme of digits behind minus signs is their integer. -/
theorem IsAmong.value_of_signed {tokens : List Token} (h : l.IsAmong tokens)
    (hDigits : IsDigits digits) (hLexeme : l.lexeme = (signed digits k).lexeme) :
    l.value = (signed digits k).value := by
  obtain ⟨signs, token, value, -, hDenotes, -, hText, hValue⟩ := h
  have hNoSign : ∀ more, digits ≠ '-' :: more := by
    rintro more rfl
    cases hDigits.2 '-' List.mem_cons_self
  obtain ⟨rfl, rfl⟩ := signs_append_inj hDenotes.not_sign hNoSign
    (String.ofList_injective (hText.symm.trans hLexeme))
  rw [hValue, hDenotes.value_of_digits hDigits, LiteralValue.iterate_neg_int, signed]

theorem Written.exists_isAmong (h : l.Written) : ∃ token, l.IsAmong [token] := by
  induction h with
  | constant hWord hRead =>
    exact ⟨⟨.constant, _⟩, isAmong_of_denotes List.mem_cons_self (lexeme_of_ofConstant hRead)
      (denotes_of_ofConstant hWord hRead)⟩
  | boolean hWord hRead =>
    exact ⟨⟨.boolean, _⟩, isAmong_of_denotes List.mem_cons_self (lexeme_of_ofBoolean hRead)
      (denotes_of_ofBoolean hWord hRead)⟩
  | quoted hWord hRead =>
    exact ⟨⟨.string, _⟩, isAmong_of_denotes List.mem_cons_self (lexeme_of_ofQuoted hRead)
      (denotes_of_ofQuoted hWord hRead)⟩
  | number hWord hRead =>
    exact ⟨⟨.number, _⟩, isAmong_of_denotes List.mem_cons_self (lexeme_of_ofNumber hRead)
      (denotes_of_ofNumber hWord hRead).1⟩
  | negated _ hNegate ih =>
    obtain ⟨token, hAmong⟩ := ih
    exact ⟨token, hAmong.negated hNegate⟩

end Literal

/-- Digits behind any number of minus signs are the integer that is written, with its lexeme, if
the digits are below the limit, and are refused if they are not. No number of a text is so small
that it cannot be negated, and no lexeme of an integer has another value. -/
theorem signed_integers_are_exact (resolver : Option Resolver) :
    (∀ digits k s, IsDigits digits → SignedDigits digits k s →
      Expr.ofText resolver ("x = " ++ String.ofList s) =
        if Double.ofDigits digits < Literal.integerLimit then
          .ok (.binary .eq (.field .this "x") (.literal
            ⟨String.ofList (List.replicate k '-' ++ digits),
              .int ((-1) ^ k * Double.ofDigits digits)⟩))
        else .error (.binding (.integerOutOfRange (String.ofList digits)))) ∧
    ∀ form text tree part l ty, SyntaxTree.ofText form text = .ok tree → tree.Has part →
      Phrase.ofTree resolver part = .ok (.expr (.literal l) ty) →
      (l.value.isNumber = true → ∃ negative, l.negate? = some negative) ∧
      ∀ digits k, IsDigits digits → l.lexeme = String.ofList (List.replicate k '-' ++ digits) →
        l.value = .int ((-1) ^ k * Double.ofDigits digits) := by
  refine ⟨fun digits k s hDigits hText => ?_, fun form text tree part l ty hText hPart hPhrase => ?_⟩
  · have hSame : "x = " ++ String.ofList s = String.ofList (comparisonText s) := by
      rw [← String.toList_inj]
      simp
    rw [hSame]
    exact ofText_signedDigits resolver hDigits hText
  · have hWritten : l.Written := by
      cases Phrase.written_of_part hText hPart hPhrase with
      | literal hLiteral => exact hLiteral
    obtain ⟨token, hAmong⟩ := hWritten.exists_isAmong
    exact ⟨hWritten.exists_negative, fun digits k hDigits => hAmong.value_of_signed hDigits⟩

/-- The greatest integer behind two signs, and the digits of the least one behind its sign. -/
theorem limit_comes_before_sign :
    Expr.ofText none "x = -# minus\n\t-170141183460469231731687303715884105727" =
      .ok (.binary .eq (.field .this "x") (.literal
        ⟨"--170141183460469231731687303715884105727",
          .int 170141183460469231731687303715884105727⟩)) ∧
    Expr.ofText none "x = -170141183460469231731687303715884105728" =
      .error (.binding (.integerOutOfRange "170141183460469231731687303715884105728")) := by
  have hGap : Gap
      ('#' :: " minus".toList ++ '\n' :: "\t-170141183460469231731687303715884105727".toList)
      "-170141183460469231731687303715884105727".toList :=
    .comment (by decide) (.blank rfl (.nothing _))
  have hGreatest : SignedDigits "170141183460469231731687303715884105727".toList 2
      "-# minus\n\t-170141183460469231731687303715884105727".toList :=
    .sign hGap (.sign (.nothing _) .bare)
  have hLeast : SignedDigits "170141183460469231731687303715884105728".toList 1
      "-170141183460469231731687303715884105728".toList := .sign (.nothing _) .bare
  have hLiteral : Literal.signed "170141183460469231731687303715884105727".toList 2 =
      ⟨"--170141183460469231731687303715884105727",
        .int 170141183460469231731687303715884105727⟩ := by decide +kernel
  have hDigits : IsDigits "170141183460469231731687303715884105727".toList ∧
      IsDigits "170141183460469231731687303715884105728".toList := by
    constructor <;> exact ⟨List.cons_ne_nil _ _, List.all_eq_true.mp (by decide +kernel)⟩
  have hRead := (signed_integers_are_exact none).1 _ _ _ hDigits.1 hGreatest
  have hRefused := (signed_integers_are_exact none).1 _ _ _ hDigits.2 hLeast
  rw [if_pos (by decide +kernel), ← Literal.signed, hLiteral] at hRead
  rw [if_neg (by decide +kernel)] at hRefused
  exact ⟨hRead, hRefused⟩

end TopicSpec
