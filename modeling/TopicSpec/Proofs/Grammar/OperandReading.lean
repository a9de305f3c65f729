import TopicSpec.Proofs.Expr.Plain
import TopicSpec.Proofs.Expr.Text
import TopicSpec.Proofs.Grammar.Ladder
import TopicSpec.Proofs.Literal.Lexeme
import TopicSpec.Proofs.Phrase.Written

/-! # Reading operands again

How the scanner of operands answers to the text of each form of operand, given the answers to the
texts inside it. -/

namespace TopicSpec.Grammar
open Scan TopicSpec.Expr
set_option autoImplicit false

variable {resolver : Option Resolver} {inner : Inner} {g g' : Prop} {e : Expr} {ty : Ty}
  {s t u : List Char}

/-- As `Reads`, where all that is left is given, the gap included. -/
def ReadsTo (resolver : Option Resolver) (condition : Prop) (e : Expr) (ty : Ty)
    (left : List Char) : Outcome SyntaxTree → Prop :=
  Settles condition fun tree rest => rest = left ∧ Phrase.ofTree resolver tree = .ok (.expr e ty)

theorem ReadsTo.reads {o : Outcome SyntaxTree} (h : ReadsTo resolver g e ty s o) :
    Reads resolver g e ty (afterGap false s) o := by
  refine h.imp Iff.rfl ?_
  rintro tree _ ⟨rfl, hTree⟩
  exact ⟨rfl, hTree⟩

theorem ReadsTo.congr {o : Outcome SyntaxTree} (h : ReadsTo resolver g e ty s o) (hg : g ↔ g') :
    ReadsTo resolver g' e ty s o := h.imp hg fun _ _ hP => hP

/-! ## What follows -/

theorem Ends.stops {accepts : Char → Bool} (h : Ends s)
    (hMarks : [')', ']', '\x7d', ',', ':'].any accepts = false) (hBlank : accepts ' ' = false) :
    Stops accepts s := by
  rcases h with rfl | ⟨c, t, rfl, hc⟩ | ⟨t, rfl⟩ | ⟨t, rfl⟩
  · exact stops_nil _
  · exact stops_cons_iff.mpr (Bool.eq_false_iff.mpr (List.any_eq_false.mp hMarks c hc))
  · exact stops_cons_iff.mpr hBlank
  · exact stops_cons_iff.mpr hBlank

theorem Ends.stopsNumber (h : Ends s) : StopsNumber s := h.stops rfl rfl

theorem Ends.stopsWord (h : Ends s) : StopsWord s := h.stops rfl rfl

/-- A parenthesis never follows an expression, whether a gap stands between or not. -/
theorem Ends.no_parenthesis (h : Ends s) (t : List Char) : afterGap false s ≠ '(' :: t := by
  rcases h with rfl | ⟨c, t, rfl, hc⟩ | ⟨t, rfl⟩ | ⟨t, rfl⟩
  · exact nofun
  · simp only [List.mem_cons, List.not_mem_nil, or_false] at hc
    rcases hc with rfl | rfl | rfl | rfl | rfl <;> simp [afterGap, isGapChar]
  · simp [afterGap, isGapChar]
  · simp [afterGap, isGapChar]

theorem Ends.head_ne (h : Ends s) {c : Char} (hc : c ∈ ['.', '[', '!', '=']) (t : List Char) :
    s ≠ c :: t := by
  rintro rfl
  rcases h with hNil | ⟨d, t, hEq, hd⟩ | ⟨t, hEq⟩ | ⟨t, hEq⟩
  · cases hNil
  · obtain ⟨rfl, -⟩ := List.cons.inj hEq
    simp only [List.mem_cons, List.not_mem_nil, or_false] at hc hd
    rcases hc with rfl | rfl | rfl | rfl <;> simp at hd
  · obtain ⟨rfl, -⟩ := List.cons.inj hEq
    simp at hc
  · obtain ⟨rfl, -⟩ := List.cons.inj hEq
    simp at hc

/-! ## What stands in front -/

/-- None of the words that change what is read stand in front. -/
structure Opens (s : List Char) : Prop where
  negation : Declines (keyword "not") s
  quantifier : Declines (oneKeyword "forall" ["exists"]) s

theorem opens_of_head {c : Char} (h : c ∉ ['n', 'f', 'e']) : Opens (c :: s) := by
  simp only [List.mem_cons, List.not_mem_nil, or_false, not_or] at h
  obtain ⟨hNot, hForall, hExists⟩ := h
  refine ⟨declines_keyword_of_head rfl hNot, declines_oneKeyword fun word hWord => ?_⟩
  simp only [List.mem_cons, List.not_mem_nil, or_false] at hWord
  rcases hWord with rfl | rfl
  · exact declines_keyword_of_head rfl hForall
  · exact declines_keyword_of_head rfl hExists

/-! ## Parentheses and literals -/

theorem settles_firstOf {α : Type} {P : α → List Char → Prop} {p : Scan α}
    {more : List (Scan α)} (h : Settles g P (p s)) : Settles g P (firstOf p more s) := by
  cases more with
  | nil => exact h
  | cons q more => exact settles_orElse h

theorem operand_of_minus (s : List Char) :
    ∃ more, operand inner ('-' :: s) = expecting .value (firstOf (negativeNumber inner) more)
      ('-' :: s) := ⟨_, rfl⟩

theorem operand_of_parenthesis (s : List Char) :
    ∃ more, operand inner ('(' :: s) = expecting .value (firstOf (parenthesized inner) more)
      ('(' :: s) := ⟨_, rfl⟩

/-- A closing mark, behind a gap. -/
theorem close_eq_accept {α : Type} {expected : Expectation} {mark : String} (a : α)
    (h : afterGap false t = mark.toList ++ s) :
    (gap >>= fun _ => require expected (literal mark) >>= fun _ => (pure a : Scan α)) t =
      .accept a s := by
  have hMark : require expected (literal mark) (afterGap false t) = .accept () s :=
    require_eq_accept_iff.mpr (literal_eq_accept_iff.mpr h)
  refine bind_eq_accept_iff.mpr ⟨(), _, gap_eq_accept t, ?_⟩
  exact bind_eq_accept_iff.mpr ⟨(), s, hMark, rfl⟩

theorem readsTo_parenthesized (hFront : afterGap false (u ++ ')' :: s) = u ++ ')' :: s)
    (h : Reads resolver g e ty (')' :: s) (inner.condition (u ++ ')' :: s))) :
    ReadsTo resolver g e ty s (operand inner ('(' :: (u ++ ')' :: s))) := by
  obtain ⟨more, hOperand⟩ := operand_of_parenthesis (u ++ ')' :: s)
  rw [hOperand]
  refine settles_expecting (settles_firstOf ?_)
  refine settles_bind_of_accept (a := ()) (t := u ++ ')' :: s) rfl ?_
  refine settles_bind_of_accept (by rw [gap_eq_accept, hFront]) ?_
  refine settles_bind_pure (settles_commit h) ?_
  rintro tree rest ⟨hGap, hTree⟩
  exact ⟨tree, s, close_eq_accept tree hGap, rfl, hTree⟩

/-- An operand behind a minus sign. -/
theorem readsTo_minus {x : Expr} {operandType : Ty} (hFront : afterGap false u = u)
    (h : ReadsTo resolver g x operandType s (inner.operand u))
    (hNode : ∀ p, Phrase.ofNegativeNumber .negativeNumber [p, .expr x operandType] =
      .ok (.expr e ty)) :
    ReadsTo resolver g e ty s (operand inner ('-' :: u)) := by
  obtain ⟨more, hOperand⟩ := operand_of_minus u
  rw [hOperand]
  refine settles_expecting (settles_firstOf ?_)
  refine settles_bind_of_accept (a := ()) (t := u) rfl ?_
  refine settles_bind_of_accept (by rw [gap_eq_accept, hFront]) ?_
  refine settles_bind_pure (settles_commit h) ?_
  rintro tree _ ⟨rfl, hTree⟩
  refine ⟨_, _, rfl, rfl, ?_⟩
  rw [Phrase.ofTree_two (Phrase.ofTree_leaf _) hTree]
  exact hNode (.token ⟨.operator, "-"⟩)

/-- Where the scanner of operands leaves the text to another one, which accepts it. -/
theorem readsTo_of_accept {p : Scan SyntaxTree} {others : List (Scan SyntaxTree)}
    {tree : SyntaxTree}
    (hOperand : operand inner t = expecting .value (firstOf p others) t)
    (hAccept : p t = .accept tree s) (hTree : Phrase.ofTree resolver tree = .ok (.expr e ty)) :
    ReadsTo resolver True e ty s (operand inner t) := by
  rw [hOperand]
  refine settles_expecting (settles_firstOf ?_)
  exact settles_of_accept hAccept trivial ⟨rfl, hTree⟩

theorem oneKeyword_of_reserved {word first : String} {more : List String}
    (hWord : word ∈ first :: more) (hStops : StopsWord s)
    (hReserved : ∀ w ∈ first :: more, isReserved w.toList = true) :
    oneKeyword first more (word.toList ++ s) = .accept word s :=
  oneKeyword_append hWord (fun w hw => isIdentifier_of_isReserved (hReserved w hw)) hStops

theorem readsTo_constant {word : String} {l : Literal} (hWord : word ∈ ["PI", "INF", "NAN"])
    (hRead : Literal.ofConstant word = .ok l) (hStops : StopsWord s) :
    ReadsTo resolver True (.literal l) (.only (Typing.literalKind l.value)) s
      (operand inner (word.toList ++ s)) := by
  have hOperand : ∃ others, operand inner (word.toList ++ s) =
      expecting .value (firstOf numberConstant others) (word.toList ++ s) := by
    simp only [List.mem_cons, List.not_mem_nil, or_false] at hWord
    rcases hWord with rfl | rfl | rfl <;> exact ⟨_, rfl⟩
  obtain ⟨others, hOperand⟩ := hOperand
  have hKeyword := oneKeyword_of_reserved hWord hStops (by decide)
  refine readsTo_of_accept hOperand (bind_of_accept hKeyword) ?_
  rw [Phrase.ofTree_one (Phrase.ofTree_leaf _)]
  exact Phrase.ofLiteral_eq_ok (by rw [hRead]; rfl)

theorem readsTo_boolean {word : String} {l : Literal} (hWord : word ∈ ["True", "False"])
    (hRead : Literal.ofBoolean word = .ok l) (hStops : StopsWord s) :
    ReadsTo resolver True (.literal l) (.only (Typing.literalKind l.value)) s
      (operand inner (word.toList ++ s)) := by
  have hOperand : ∃ others, operand inner (word.toList ++ s) =
      expecting .value (firstOf boolean others) (word.toList ++ s) := by
    simp only [List.mem_cons, List.not_mem_nil, or_false] at hWord
    rcases hWord with rfl | rfl <;> exact ⟨_, rfl⟩
  obtain ⟨others, hOperand⟩ := hOperand
  have hKeyword := oneKeyword_of_reserved hWord hStops (by decide)
  refine readsTo_of_accept hOperand (bind_of_accept hKeyword) ?_
  rw [Phrase.ofTree_one (Phrase.ofTree_leaf _)]
  exact Phrase.ofLiteral_eq_ok (by rw [hRead]; rfl)

theorem readsTo_quoted {word : String} {l : Literal} (hWord : IsQuoted word.toList)
    (hRead : Literal.ofQuoted word = .ok l) :
    ReadsTo resolver True (.literal l) (.only (Typing.literalKind l.value)) s
      (operand inner (word.toList ++ s)) := by
  have hOperand : ∃ others, operand inner (word.toList ++ s) =
      expecting .value (firstOf string others) (word.toList ++ s) := by
    obtain ⟨text, hText, -⟩ := hWord
    rw [hText]
    exact ⟨_, rfl⟩
  obtain ⟨others, hOperand⟩ := hOperand
  have hQuoted : quoted (word.toList ++ s) = .accept word.toList s :=
    quoted_eq_accept_iff.mpr ⟨rfl, hWord⟩
  refine readsTo_of_accept hOperand (bind_of_accept hQuoted) ?_
  rw [SyntaxTree.token, String.ofList_toList, Phrase.ofTree_one (Phrase.ofTree_leaf _)]
  exact Phrase.ofLiteral_eq_ok (by rw [hRead]; rfl)

theorem operand_of_digit {c : Char} (h : c.isDigit = true) :
    ∃ more, operand inner (c :: s) = expecting .value (firstOf number more) (c :: s) := by
  have hne : ∀ d, d.isDigit = false → c ≠ d := by
    rintro d hd rfl
    rw [h] at hd
    cases hd
  have hMinus : Declines (negativeNumber inner) (c :: s) :=
    declines_bind (declines_literal_of_head rfl (hne '-' (by decide)))
  have hOpen : Declines (parenthesized inner) (c :: s) :=
    declines_bind (declines_literal_of_head rfl (hne '(' (by decide)))
  have hConstant : Declines numberConstant (c :: s) := by
    refine declines_bind (declines_oneKeyword fun word hWord => ?_)
    simp only [List.mem_cons, List.not_mem_nil, or_false] at hWord
    rcases hWord with rfl | rfl | rfl
    · exact declines_keyword_of_head rfl (hne 'P' (by decide))
    · exact declines_keyword_of_head rfl (hne 'I' (by decide))
    · exact declines_keyword_of_head rfl (hne 'N' (by decide))
  have hBoolean : Declines boolean (c :: s) := by
    refine declines_bind (declines_oneKeyword fun word hWord => ?_)
    simp only [List.mem_cons, List.not_mem_nil, or_false] at hWord
    rcases hWord with rfl | rfl
    · exact declines_keyword_of_head rfl (hne 'T' (by decide))
    · exact declines_keyword_of_head rfl (hne 'F' (by decide))
  have hString : Declines string (c :: s) :=
    declines_bind (declines_bind (declines_literal_of_head rfl (hne '"' (by decide))))
  refine ⟨[enumLiteral inner, rangeLiteral inner, functionCall inner, reference inner],
    expecting_congr ?_⟩
  rw [firstOf_of_declines hMinus, firstOf_of_declines hOpen, firstOf_of_declines hConstant,
    firstOf_of_declines hBoolean, firstOf_of_declines hString]

theorem readsTo_number {word : String} {l : Literal} (hWord : IsNumber word.toList)
    (hRead : Literal.ofNumber word = .ok l) (hStops : StopsNumber s) :
    ReadsTo resolver True (.literal l) (.only (Typing.literalKind l.value)) s
      (operand inner (word.toList ++ s)) := by
  have hOperand : ∃ others, operand inner (word.toList ++ s) =
      expecting .value (firstOf number others) (word.toList ++ s) := by
    obtain ⟨c, more, hText, hDigit⟩ := hWord.head
    rw [hText]
    exact operand_of_digit hDigit
  obtain ⟨others, hOperand⟩ := hOperand
  have hNumber : Scan.number (word.toList ++ s) = .accept word.toList s :=
    number_append hWord hStops
  refine readsTo_of_accept hOperand (bind_of_accept hNumber) ?_
  rw [SyntaxTree.token, String.ofList_toList, Phrase.ofTree_one (Phrase.ofTree_leaf _)]
  exact Phrase.ofLiteral_eq_ok hRead

/-! ## Names -/

theorem isDigit_of_isWordStart {c : Char} (h : isWordStart c = true) : c.isDigit = false := by
  rw [Bool.eq_false_iff]
  intro hDigit
  have hMost : c.toNat ≤ 57 := (Char.isDigit_iff_toNat.mp hDigit).2
  rcases Bool.or_eq_true_iff.mp h with hLetter | hUnderscore
  · have hCase : (c.isUpper || c.isLower) = true := hLetter
    rcases Bool.or_eq_true_iff.mp hCase with hUpper | hLower
    · have hLeast : 'A'.val ≤ c.val := (of_decide_eq_true hUpper).1
      have hCode : 65 ≤ c.toNat := UInt32.le_iff_toNat_le.mp hLeast
      omega
    · have hLeast : 'a'.val ≤ c.val := of_decide_eq_true (Bool.and_eq_true_iff.mp hLower).1
      have hCode : 97 ≤ c.toNat := UInt32.le_iff_toNat_le.mp hLeast
      omega
  · obtain rfl : c = '_' := eq_of_beq hUnderscore
    cases hDigit

theorem operand_of_name {name : List Char} (hName : IsName name) (hStops : StopsWord s) :
    operand inner (name ++ s) =
      expecting .value (firstOf (functionCall inner) [reference inner]) (name ++ s) := by
  obtain ⟨c, more, rfl, hStart, -⟩ := hName.1
  have hne : ∀ d, isWordStart d = false → c ≠ d := by
    rintro d hd rfl
    rw [hStart] at hd
    cases hd
  have hWords : ∀ word : String, isReserved word.toList = true →
      Declines (keyword word) (c :: more ++ s) :=
    fun word hReserved => declines_keyword_of_name hName hStops hReserved
  have hMinus : Declines (negativeNumber inner) (c :: more ++ s) :=
    declines_bind (declines_literal_of_head rfl (hne '-' (by decide)))
  have hOpen : Declines (parenthesized inner) (c :: more ++ s) :=
    declines_bind (declines_literal_of_head rfl (hne '(' (by decide)))
  have hConstant : Declines numberConstant (c :: more ++ s) :=
    declines_bind (declines_oneKeyword fun word hWord => hWords word (by revert word; decide))
  have hBoolean : Declines boolean (c :: more ++ s) :=
    declines_bind (declines_oneKeyword fun word hWord => hWords word (by revert word; decide))
  have hString : Declines string (c :: more ++ s) :=
    declines_bind (declines_bind (declines_literal_of_head rfl (hne '"' (by decide))))
  have hNumber : Declines number (c :: more ++ s) :=
    declines_bind (declines_bind (declines_someRun
      (stops_cons_iff.mpr (isDigit_of_isWordStart hStart))))
  have hSet : Declines (enumLiteral inner) (c :: more ++ s) :=
    declines_bind (declines_literal_of_head rfl (hne '\x7b' (by decide)))
  have hRange : Declines (rangeLiteral inner) (c :: more ++ s) :=
    declines_bind (declines_orElse
      (declines_bind (declines_literal_of_head rfl (hne '!' (by decide))))
      (declines_bind (declines_literal_of_head rfl (hne '[' (by decide)))))
  refine expecting_congr ?_
  rw [firstOf_of_declines hMinus, firstOf_of_declines hOpen, firstOf_of_declines hConstant,
    firstOf_of_declines hBoolean, firstOf_of_declines hString, firstOf_of_declines hNumber,
    firstOf_of_declines hSet, firstOf_of_declines hRange]

theorem opens_name {name : List Char} (hName : IsName name) (hStops : StopsWord s) :
    Opens (name ++ s) :=
  ⟨declines_keyword_of_name hName hStops rfl, declines_oneKeyword fun word hWord =>
    declines_keyword_of_name hName hStops (by revert word; decide)⟩

theorem gap_name {name : List Char} (hName : IsName name) (s : List Char) :
    afterGap false (name ++ s) = name ++ s := by
  obtain ⟨c, more, rfl, hStart, -⟩ := hName.1
  exact afterGap_of_class hStart rfl

/-! ## Calls -/

theorem readsTo_call {function : String} {argument : Expr} {argumentType : Ty}
    (hName : IsName function.toList) (hFront : afterGap false (u ++ ')' :: s) = u ++ ')' :: s)
    (hType : Typing.nodeType (.call function argument) [argumentType] = .ok ty)
    (h : Reads resolver g argument argumentType (')' :: s) (inner.condition (u ++ ')' :: s))) :
    ReadsTo resolver g (.call function argument) ty s
      (operand inner (function.toList ++ '(' :: (u ++ ')' :: s))) := by
  have hStops : StopsWord ('(' :: (u ++ ')' :: s)) := stops_cons_iff.mpr (by decide)
  rw [operand_of_name hName hStops]
  refine settles_expecting (settles_firstOf ?_)
  refine settles_bind_of_accept (name_eq_accept_iff.mpr ⟨rfl, hName, hStops⟩) ?_
  refine settles_bind_of_accept (a := ()) (t := '(' :: (u ++ ')' :: s)) rfl ?_
  refine settles_bind_of_accept (a := ()) (t := u ++ ')' :: s) rfl ?_
  refine settles_bind_of_accept (by rw [gap_eq_accept, hFront]) ?_
  refine settles_bind_pure (settles_require h) ?_
  rintro tree rest ⟨hGap, hTree⟩
  refine ⟨_, s, close_eq_accept _ hGap, rfl, ?_⟩
  rw [SyntaxTree.token, String.ofList_toList, Phrase.ofTree_two (Phrase.ofTree_leaf _) hTree]
  exact Phrase.typed_eq_ok hType

/-! ## Ranges -/

theorem rangeEnd_eq_accept (h : Ends s) (excludeUpper : Bool) :
    rangeEnd ((rightMark excludeUpper).toList ++ s) = .accept (rightMark excludeUpper) s := by
  have hClose : ∀ t, require .closingBracket (literal "]") (']' :: t) = .accept () t :=
    fun t => require_eq_accept_iff.mpr rfl
  cases excludeUpper with
  | false =>
    have hMark : dropWord ['!'] s = none := by
      cases hDrop : dropWord ['!'] s with
      | none => rfl
      | some t => exact absurd (dropWord_eq_some_iff.mp hDrop) (h.head_ne (by decide) t)
    refine bind_eq_accept_iff.mpr ⟨(), s, hClose s, ?_⟩
    refine bind_eq_accept_iff.mpr ⟨false, s, ?_, rfl⟩
    rw [peek, hMark]
    rfl
  | true =>
    have hEqual : dropWord ['!', '='] ('!' :: s) = none := by
      cases hDrop : dropWord ['!', '='] ('!' :: s) with
      | none => rfl
      | some t =>
        have hText := (List.cons.inj (dropWord_eq_some_iff.mp hDrop)).2
        exact absurd hText (h.head_ne (by decide) t)
    refine bind_eq_accept_iff.mpr ⟨(), '!' :: s, hClose _, ?_⟩
    refine bind_eq_accept_iff.mpr ⟨true, '!' :: s, ?_, rfl⟩
    rw [peek, hEqual]
    rfl

theorem ofRangeLiteral_eq {rule : Rule} {lower upper : Expr} {lowerType upperType : Ty}
    (excludeLower excludeUpper : Bool) :
    Phrase.ofRangeLiteral rule [.token ⟨.leftDelimiter, leftMark excludeLower⟩,
      .expr lower lowerType, .expr upper upperType,
      .token ⟨.rightDelimiter, rightMark excludeUpper⟩] =
      Phrase.typed (.range lower upper excludeLower excludeUpper) [lowerType, upperType] := by
  cases excludeLower <;> cases excludeUpper <;> rfl

theorem readsTo_range {lower upper : Expr} {lowerType upperType : Ty} {v : List Char}
    {excludeLower excludeUpper : Bool} (hEnds : Ends s)
    (hFront : ∀ t, afterGap false (u ++ t) = u ++ t)
    (hFront' : ∀ t, afterGap false (v ++ t) = v ++ t)
    (hType : Typing.nodeType (.range lower upper excludeLower excludeUpper)
      [lowerType, upperType] = .ok ty)
    (hLower : ∀ t, Reads resolver g lower lowerType ('t' :: 'o' :: ' ' :: t)
      (inner.expr (u ++ ' ' :: 't' :: 'o' :: ' ' :: t)))
    (hUpper : ∀ t, Reads resolver g' upper upperType (']' :: t) (inner.expr (v ++ ']' :: t))) :
    ReadsTo resolver (g ∧ g') (.range lower upper excludeLower excludeUpper) ty s
      (operand inner ((leftMark excludeLower).toList ++ (u ++ ' ' :: 't' :: 'o' :: ' ' ::
        (v ++ ((rightMark excludeUpper).toList ++ s))))) := by
  generalize hRest : v ++ ((rightMark excludeUpper).toList ++ s) = rest
  have hOperand : ∃ more, operand inner ((leftMark excludeLower).toList ++
      (u ++ ' ' :: 't' :: 'o' :: ' ' :: rest)) = expecting .value (firstOf (rangeLiteral inner) more)
      ((leftMark excludeLower).toList ++ (u ++ ' ' :: 't' :: 'o' :: ' ' :: rest)) := by
    cases excludeLower <;> exact ⟨_, rfl⟩
  have hLeft : oneMark "![" ["["] ((leftMark excludeLower).toList ++
      (u ++ ' ' :: 't' :: 'o' :: ' ' :: rest)) =
      .accept (leftMark excludeLower) (u ++ ' ' :: 't' :: 'o' :: ' ' :: rest) := by
    cases excludeLower <;> rfl
  have hSeparator : require .boundSeparator (orElse (keyword "to") (literal ","))
      ('t' :: 'o' :: ' ' :: rest) = .accept () (' ' :: rest) := require_eq_accept_iff.mpr rfl
  have hSkip : gap (' ' :: rest) = .accept () rest := by
    show Outcome.accept () (afterGap false rest) = _
    rw [← hRest, hFront']
  have hUpper' : Reads resolver g' upper upperType ((rightMark excludeUpper).toList ++ s)
      (inner.expr rest) := by
    rw [← hRest]
    cases excludeUpper
    · exact hUpper s
    · exact hUpper ('!' :: s)
  obtain ⟨more, hOperand⟩ := hOperand
  rw [hOperand]
  refine settles_expecting (settles_firstOf ?_)
  refine settles_bind_of_accept hLeft ?_
  refine settles_bind_of_accept (by rw [gap_eq_accept, hFront]) ?_
  refine settles_bind (settles_require (hLower rest)) ?_
  rintro lowerTree a ⟨hGap, hLowerTree⟩
  refine settles_bind_of_accept (by rw [gap_eq_accept, hGap]) ?_
  refine settles_bind_of_accept hSeparator ?_
  refine settles_bind_of_accept hSkip ?_
  refine settles_bind_pure (settles_require hUpper') ?_
  rintro upperTree b ⟨hGap', hUpperTree⟩
  refine ⟨.node .rangeLiteral [.leaf ⟨.leftDelimiter, leftMark excludeLower⟩, lowerTree, upperTree,
    .leaf ⟨.rightDelimiter, rightMark excludeUpper⟩], s, ?_, rfl, ?_⟩
  · refine bind_eq_accept_iff.mpr ⟨(), _, gap_eq_accept b, ?_⟩
    rw [hGap']
    exact bind_eq_accept_iff.mpr ⟨_, s, rangeEnd_eq_accept hEnds excludeUpper, rfl⟩
  · rw [Phrase.ofTree_four (Phrase.ofTree_leaf _) hLowerTree hUpperTree (Phrase.ofTree_leaf _)]
    exact (ofRangeLiteral_eq excludeLower excludeUpper).trans (Phrase.typed_eq_ok hType)

end TopicSpec.Grammar
