import TopicSpec.Proofs.Grammar.Derivation

/-! # Conditions that are read are derived

A production that reads derivations inside it reads a derivation. Closing the circle of productions
is then an induction on the levels of nesting. -/

namespace TopicSpec.Grammar
open Scan
set_option autoImplicit false

variable {s t : List Char}

/-- All that the scanner reads is derived from the nonterminal. -/
def Yields (p : Scan SyntaxTree) (n : Nonterminal) : Prop :=
  ∀ {s t tree}, p s = .accept tree t → Derives n tree s t

/-- The productions inside read derivations. -/
structure Inner.Sound (inner : Inner) : Prop where
  condition : Yields inner.condition (.level .condition)
  logicAtom : Yields inner.logicAtom .logicAtom
  expr : Yields inner.expr (.level .expr)
  operand : Yields inner.operand .operand

/-! ## Fixed words -/

theorem fixed_of_literal {word : String} {u : Unit} (h : literal word s = .accept u t)
    (hMark : word.toList.all isWordChar = false) : Fixed word s t :=
  ⟨literal_eq_accept_iff.mp h, fun hWord => absurd hWord (by simp [hMark])⟩

theorem fixed_of_keyword {word : String} {u : Unit} (h : keyword word s = .accept u t) :
    Fixed word s t :=
  (keyword_eq_accept_iff.mp h).imp_right fun hStops _ => hStops

theorem fixed_of_oneMark {mark word : String} {more : List String}
    (h : oneMark mark more s = .accept word t)
    (hMarks : ∀ m ∈ mark :: more, m.toList.all isWordChar = false) :
    word ∈ mark :: more ∧ Fixed word s t := by
  obtain ⟨hWord, hText⟩ := accept_of_oneMark h
  exact ⟨hWord, hText, fun hAll => absurd hAll (by simp [hMarks word hWord])⟩

theorem fixed_of_oneKeyword {first word : String} {more : List String}
    (h : oneKeyword first more s = .accept word t) : word ∈ first :: more ∧ Fixed word s t := by
  obtain ⟨hWord, hText, hStops⟩ := accept_of_oneKeyword h
  exact ⟨hWord, hText, fun _ => hStops⟩

theorem lexeme_of_name {word : List Char} (h : name s = .accept word t) : Lexeme IsName word s t :=
  (name_eq_accept_iff.mp h).imp_right And.left

theorem lexeme_of_identifier {word : List Char} (h : identifier s = .accept word t) :
    Lexeme IsIdentifier word s t :=
  (identifier_eq_accept_iff.mp h).imp_right And.left

theorem lexeme_of_number {word : List Char} (h : Scan.number s = .accept word t) :
    Lexeme IsNumber word s t :=
  accept_of_number h

/-! ## Chains -/

theorem chainLink_none {rule : Rule} {operand : Scan SyntaxTree} {operator : Scan String}
    {front : Front} (h : chainLink rule operand operator front s = .accept none t) : Gap s t := by
  obtain ⟨_, hGap, hAfterGap⟩ := accept_of_gap h
  obtain ⟨op?, n, hOp, hAfterOp⟩ := bind_eq_accept_iff.mp hAfterGap
  rcases accept_of_optional hOp with ⟨rfl, rfl⟩ | ⟨op, rfl, -⟩
  · obtain ⟨-, rfl⟩ := pure_eq_accept_iff.mp hAfterOp
    exact hGap
  · obtain ⟨v, k, -, hRest⟩ := bind_eq_accept_iff.mp hAfterOp
    obtain ⟨right, l, -, hPure⟩ := bind_eq_accept_iff.mp hRest
    simp [pure_eq_accept_iff] at hPure

theorem chainLink_some {l : Level} {operand : Scan SyntaxTree} {operator : Scan String}
    (hOperand : Yields operand l.operand)
    (hOperator : ∀ {s t op}, operator s = .accept op t → op ∈ l.operators ∧ Fixed op s t)
    {front next : Front} (h : chainLink l.rule operand operator front s = .accept (some next) t)
    {start : List Char} (hFront : Derives (.front l front.linked) front.tree start s) :
    Derives (.front l next.linked) next.tree start t := by
  obtain ⟨_, hGap, hAfterGap⟩ := accept_of_gap h
  obtain ⟨op?, n, hOp, hAfterOp⟩ := bind_eq_accept_iff.mp hAfterGap
  rcases accept_of_optional hOp with ⟨rfl, rfl⟩ | ⟨op, rfl, hAccept⟩
  · simp [pure_eq_accept_iff] at hAfterOp
  · obtain ⟨_, hGap', hRest⟩ := accept_of_gap hAfterOp
    obtain ⟨right, e, hRight, hPure⟩ := bind_eq_accept_iff.mp hRest
    obtain ⟨hNext, rfl⟩ := pure_eq_accept_iff.mp hPure
    obtain rfl := Option.some.inj hNext
    obtain ⟨hMem, hFixed⟩ := hOperator hAccept
    exact .link hFront hGap hMem hFixed hGap' (hOperand (require_eq_accept_iff.mp hRight))

theorem chain_yields {l : Level} {operand : Scan SyntaxTree} {operator : Scan String}
    (hOperand : Yields operand l.operand)
    (hOperator : ∀ {s t op}, operator s = .accept op t → op ∈ l.operators ∧ Fixed op s t) :
    Yields (chain l.rule operand operator) (.level l) := by
  intro s t tree h
  obtain ⟨first, m, hFirst, hRest⟩ := bind_eq_accept_iff.mp h
  obtain ⟨front, rfl, hLoop⟩ := accept_of_map hRest
  obtain ⟨k, hFront, hEnd⟩ := repeated_accept
    (fun front m => Derives (.front l front.linked) front.tree s m)
    (.first (hOperand hFirst))
    (fun _ _ _ _ hBefore hStep => chainLink_some hOperand hOperator hStep hBefore) hLoop
  have hGap : Gap k t := hEnd.elim chainLink_none fun hEq => hEq ▸ .nothing t
  obtain ⟨tree, linked⟩ := front
  cases linked with
  | false => exact .lone hFront hGap
  | true => exact .chained hFront hGap

/-! ## Operands -/

section
variable {inner : Inner} (hInner : inner.Sound)
include hInner

theorem negativeNumber_yields : Yields (negativeNumber inner) .operand := by
  intro s t tree h
  obtain ⟨_, _, _, hMinus, hGap, hRest⟩ := accept_of_thenGap h
  obtain ⟨_, rfl, hOperand⟩ := accept_of_map hRest
  exact .negativeNumber (fixed_of_literal hMinus (by decide)) hGap
    (hInner.operand (commit_eq_accept_iff.mp hOperand))

theorem parenthesized_yields : Yields (parenthesized inner) .operand := by
  intro s t tree h
  obtain ⟨_, _, _, hOpen, hGap, hRest⟩ := accept_of_thenGap h
  obtain ⟨_, _, _, hCondition, hGap', hRest⟩ := accept_of_thenGap hRest
  obtain ⟨_, rfl, hClose⟩ := accept_of_map hRest
  exact .parenthesized (fixed_of_literal hOpen (by decide)) hGap
    (hInner.condition (commit_eq_accept_iff.mp hCondition)) hGap'
    (fixed_of_literal (require_eq_accept_iff.mp hClose) (by decide))

omit hInner in
theorem numberConstant_yields : Yields numberConstant .operand := by
  intro s t tree h
  obtain ⟨_, rfl, hWord⟩ := accept_of_map h
  obtain ⟨hMem, hFixed⟩ := fixed_of_oneKeyword hWord
  exact .numberConstant hMem hFixed

omit hInner in
theorem boolean_yields : Yields boolean .operand := by
  intro s t tree h
  obtain ⟨_, rfl, hWord⟩ := accept_of_map h
  obtain ⟨hMem, hFixed⟩ := fixed_of_oneKeyword hWord
  exact .boolean hMem hFixed

omit hInner in
theorem string_yields : Yields string .operand := by
  intro s t tree h
  obtain ⟨_, rfl, hWord⟩ := accept_of_map h
  exact .string (quoted_eq_accept_iff.mp hWord)

omit hInner in
theorem number_yields : Yields number .operand := by
  intro s t tree h
  obtain ⟨_, rfl, hWord⟩ := accept_of_map h
  exact .number (lexeme_of_number hWord)

theorem furtherMember_yields {tree : SyntaxTree}
    (h : furtherMember inner s = .accept tree t) :
    ∃ a b c, Gap s a ∧ Fixed "," a b ∧ Gap b c ∧ Derives (.level .expr) tree c t := by
  obtain ⟨m, hGap, hRest⟩ := accept_of_gap h
  obtain ⟨_, n, k, hComma, hGap', hExpr⟩ := accept_of_thenGap hRest
  exact ⟨m, n, k, hGap, fixed_of_literal hComma (by decide), hGap', hInner.expr hExpr⟩

omit hInner in
theorem listed_snoc {parts : List Part} {part : Part} {a b c : List Char} (h : Listed s parts a)
    (hGap : Gap a b) (hComma : Fixed "," b c) (hGap' : Gap c part.start) :
    Listed s (parts ++ [part]) part.stop := by
  induction h with
  | nil => exact .cons hGap hComma hGap' (.nil _)
  | cons hFirst hMark hSecond _ ih => exact .cons hFirst hMark hSecond (ih hGap)

theorem members_yields {trees : List SyntaxTree} (h : members inner s = .accept trees t) :
    ∃ (member : Part) (more : List Part), trees = (member :: more).map Part.tree ∧
      Gap s member.start ∧
      (∀ part ∈ member :: more, Derives (.level .expr) part.tree part.start part.stop) ∧
      Listed member.stop more t := by
  obtain ⟨m, hGap, hRest⟩ := accept_of_gap h
  obtain ⟨first, n, hFirst, hRest⟩ := bind_eq_accept_iff.mp hRest
  obtain ⟨more, rfl, hMore⟩ := accept_of_map hRest
  obtain ⟨stop, ⟨parts, rfl, hParts, hListed⟩, hEnd⟩ := many_accept
    (fun before a => ∃ parts : List Part, before = parts.map Part.tree ∧
      (∀ part ∈ parts, Derives (.level .expr) part.tree part.start part.stop) ∧
      Listed n parts a)
    ⟨[], rfl, by simp, .nil n⟩
    (by
      rintro _ tree a b ⟨parts, rfl, hParts, hListed⟩ hStep
      obtain ⟨c, d, e, hGap, hComma, hGap', hTree⟩ :=
        furtherMember_yields hInner (optional_eq_accept_some_iff.mp hStep)
      refine ⟨parts ++ [⟨tree, e, b⟩], by simp, ?_, listed_snoc hListed hGap hComma hGap'⟩
      intro part hPart
      rcases List.mem_append.mp hPart with hPart | hPart
      · exact hParts part hPart
      · obtain rfl := List.mem_singleton.mp hPart
        exact hTree) hMore
  have hStop : t = stop := hEnd.elim rest_of_optional_none id
  refine ⟨⟨first, m, n⟩, parts, rfl, hGap, ?_, hStop ▸ hListed⟩
  intro part hPart
  rcases List.mem_cons.mp hPart with rfl | hPart
  · exact hInner.expr hFirst
  · exact hParts part hPart

theorem enumLiteral_yields : Yields (enumLiteral inner) .operand := by
  intro s t tree h
  obtain ⟨_, _, _, hOpen, hGap, hRest⟩ := accept_of_thenGap h
  obtain ⟨_, _, _, hTrees, hGap', hRest⟩ := accept_of_thenGap hRest
  obtain ⟨_, rfl, hClose⟩ := accept_of_map hRest
  obtain ⟨member, more, rfl, hGap'', hParts, hListed⟩ :=
    members_yields hInner (require_eq_accept_iff.mp hTrees)
  exact .enumLiteral (fixed_of_literal hOpen (by decide)) (hGap.trans hGap'') hParts hListed hGap'
    (fixed_of_literal (require_eq_accept_iff.mp hClose) (by decide))

omit hInner in
theorem fixed_of_rangeEnd {right : String} (h : rangeEnd s = .accept right t) :
    right ∈ ["]!", "]"] ∧ Fixed right s t := by
  obtain ⟨u, m, hClose, hRest⟩ := bind_eq_accept_iff.mp h
  obtain ⟨exclusive, n, hPeek, hRest⟩ := bind_eq_accept_iff.mp hRest
  obtain rfl := literal_eq_accept_iff.mp (require_eq_accept_iff.mp hClose)
  obtain ⟨-, rfl⟩ := Outcome.accept.inj hPeek
  split at hRest
  · obtain ⟨_, rfl, hMark⟩ := accept_of_map hRest
    obtain rfl := literal_eq_accept_iff.mp hMark
    exact ⟨by decide, rfl, fun hWord => absurd hWord (by decide)⟩
  · obtain ⟨rfl, rfl⟩ := pure_eq_accept_iff.mp hRest
    exact ⟨by decide, rfl, fun hWord => absurd hWord (by decide)⟩

omit hInner in
theorem fixed_of_separator {u : Unit}
    (h : orElse (keyword "to") (literal ",") s = .accept u t) :
    ∃ separator ∈ ["to", ","], Fixed separator s t := by
  rcases accept_of_orElse h with hTo | hComma
  · exact ⟨"to", by decide, fixed_of_keyword hTo⟩
  · exact ⟨",", by decide, fixed_of_literal hComma (by decide)⟩

theorem rangeLiteral_yields : Yields (rangeLiteral inner) .operand := by
  intro s t tree h
  obtain ⟨_, _, _, hLeft, hGap₁, hRest⟩ := accept_of_thenGap h
  obtain ⟨_, _, _, hLower, hGap₂, hRest⟩ := accept_of_thenGap hRest
  obtain ⟨_, _, _, hSeparator, hGap₃, hRest⟩ := accept_of_thenGap hRest
  obtain ⟨_, _, _, hUpper, hGap₄, hRest⟩ := accept_of_thenGap hRest
  obtain ⟨_, rfl, hRight⟩ := accept_of_map hRest
  obtain ⟨hLeft, hFixedLeft⟩ := fixed_of_oneMark hLeft (by decide)
  obtain ⟨separator, hSeparator, hFixedSeparator⟩ :=
    fixed_of_separator (require_eq_accept_iff.mp hSeparator)
  obtain ⟨hRight, hFixedRight⟩ := fixed_of_rangeEnd hRight
  exact .rangeLiteral hLeft hFixedLeft hGap₁ (hInner.expr (require_eq_accept_iff.mp hLower)) hGap₂
    hSeparator hFixedSeparator hGap₃ (hInner.expr (require_eq_accept_iff.mp hUpper)) hGap₄ hRight
    hFixedRight

theorem functionCall_yields : Yields (functionCall inner) .operand := by
  intro s t tree h
  obtain ⟨_, _, _, hName, hGap₁, hRest⟩ := accept_of_thenGap h
  obtain ⟨_, _, _, hOpen, hGap₂, hRest⟩ := accept_of_thenGap hRest
  obtain ⟨_, _, _, hArgument, hGap₃, hRest⟩ := accept_of_thenGap hRest
  obtain ⟨_, rfl, hClose⟩ := accept_of_map hRest
  exact .functionCall (lexeme_of_name hName) hGap₁ (fixed_of_literal hOpen (by decide)) hGap₂
    (hInner.condition (require_eq_accept_iff.mp hArgument)) hGap₃
    (fixed_of_literal (require_eq_accept_iff.mp hClose) (by decide))

/-! ## References -/

omit hInner in
theorem base_yields : Yields (orElse variableReference ownField) (.reference false) := by
  intro s t tree h
  rcases accept_of_orElse h with hVariable | hField
  · obtain ⟨_, m, hAt, hRest⟩ := bind_eq_accept_iff.mp hVariable
    obtain ⟨word, rfl, hName⟩ := accept_of_map hRest
    exact .variableReference (fixed_of_literal hAt (by decide))
      (lexeme_of_identifier (require_eq_accept_iff.mp hName))
  · obtain ⟨word, rfl, hName⟩ := accept_of_map hField
    exact .ownField (lexeme_of_name hName)

theorem index_yields {tree : SyntaxTree} (h : index inner s = .accept tree t) :
    ∃ a b c d, Fixed "[" s a ∧ Gap a b ∧ Derives (.level .expr) tree b c ∧ Gap c d ∧
      Fixed "]" d t := by
  obtain ⟨_, a, b, hOpen, hGap, hRest⟩ := accept_of_thenGap h
  obtain ⟨_, c, d, hPosition, hGap', hRest⟩ := accept_of_thenGap hRest
  obtain ⟨_, rfl, hClose⟩ := accept_of_map hRest
  exact ⟨a, b, c, d, fixed_of_literal hOpen (by decide), hGap,
    hInner.expr (require_eq_accept_iff.mp hPosition), hGap',
    fixed_of_literal (require_eq_accept_iff.mp hClose) (by decide)⟩

theorem referenceStep_some {stem next : Stem} {start : List Char}
    (h : referenceStep inner stem s = .accept (some next) t)
    (hStem : Derives (.reference stem.indexed) stem.tree start s) :
    Derives (.reference next.indexed) next.tree start t := by
  obtain ⟨point?, m, hPoint, hAfterPoint⟩ := bind_eq_accept_iff.mp h
  rcases accept_of_optional hPoint with ⟨rfl, rfl⟩ | ⟨⟨⟩, rfl, hLiteral⟩
  · cases hIndexed : stem.indexed with
    | true => simp [hIndexed, pure_eq_accept_iff] at hAfterPoint
    | false =>
      simp only [hIndexed, Bool.false_eq_true, if_false] at hAfterPoint
      obtain ⟨position?, n, hPosition, hAfterIndex⟩ := bind_eq_accept_iff.mp hAfterPoint
      rcases accept_of_optional hPosition with ⟨rfl, rfl⟩ | ⟨position, rfl, hIndex⟩
      · simp [pure_eq_accept_iff] at hAfterIndex
      · obtain ⟨hNext, rfl⟩ := pure_eq_accept_iff.mp hAfterIndex
        obtain rfl := Option.some.inj hNext
        obtain ⟨a, b, c, d, hOpen, hGap, hTree, hGap', hClose⟩ := index_yields hInner hIndex
        exact .arrayAccess (hIndexed ▸ hStem) hOpen hGap hTree hGap' hClose
  · obtain ⟨field, n, hField, hPure⟩ := bind_eq_accept_iff.mp hAfterPoint
    obtain ⟨hNext, rfl⟩ := pure_eq_accept_iff.mp hPure
    obtain rfl := Option.some.inj hNext
    exact .fieldAccess hStem (fixed_of_literal hLiteral (by decide))
      (lexeme_of_name (require_eq_accept_iff.mp hField))

omit hInner in
theorem rest_of_referenceStep_none {stem : Stem}
    (h : referenceStep inner stem s = .accept none t) : t = s := by
  obtain ⟨point?, m, hPoint, hAfterPoint⟩ := bind_eq_accept_iff.mp h
  rcases accept_of_optional hPoint with ⟨rfl, rfl⟩ | ⟨⟨⟩, rfl, -⟩
  · cases hIndexed : stem.indexed with
    | true => simpa [hIndexed, pure_eq_accept_iff, eq_comm] using hAfterPoint
    | false =>
      simp only [hIndexed, Bool.false_eq_true, if_false] at hAfterPoint
      obtain ⟨position?, n, hPosition, hAfterIndex⟩ := bind_eq_accept_iff.mp hAfterPoint
      rcases accept_of_optional hPosition with ⟨rfl, rfl⟩ | ⟨position, rfl, -⟩
      · exact (pure_eq_accept_iff.mp hAfterIndex).2.symm
      · simp [pure_eq_accept_iff] at hAfterIndex
  · obtain ⟨field, n, -, hPure⟩ := bind_eq_accept_iff.mp hAfterPoint
    simp [pure_eq_accept_iff] at hPure

theorem reference_yields : Yields (reference inner) .operand := by
  intro s t tree h
  obtain ⟨base, m, hBase, hRest⟩ := bind_eq_accept_iff.mp h
  obtain ⟨stem, rfl, hLoop⟩ := accept_of_map hRest
  obtain ⟨stop, hStem, hEnd⟩ := repeated_accept
    (fun stem m => Derives (.reference stem.indexed) stem.tree s m) (base_yields hBase)
    (fun _ _ _ _ hBefore hStep => referenceStep_some hInner hStep hBefore) hLoop
  have hStop : t = stop := hEnd.elim rest_of_referenceStep_none id
  exact .referred (hStop ▸ hStem)

/-! ## The levels of precedence -/

theorem operand_yields : Yields (operand inner) .operand := by
  intro s t tree h
  obtain ⟨q, hq, hAccept⟩ := accept_of_firstOf (expecting_eq_accept_iff.mp h)
  simp only [List.mem_cons, List.not_mem_nil, or_false] at hq
  rcases hq with rfl | rfl | rfl | rfl | rfl | rfl | rfl | rfl | rfl | rfl
  · exact negativeNumber_yields hInner hAccept
  · exact parenthesized_yields hInner hAccept
  · exact numberConstant_yields hAccept
  · exact boolean_yields hAccept
  · exact string_yields hAccept
  · exact number_yields hAccept
  · exact enumLiteral_yields hInner hAccept
  · exact rangeLiteral_yields hInner hAccept
  · exact functionCall_yields hInner hAccept
  · exact reference_yields hInner hAccept

omit hInner in
theorem fixed_of_productOperator {op : String} (h : productOperator s = .accept op t) :
    op ∈ Level.term.operators ∧ Fixed op s t := by
  unfold productOperator at h
  split at h
  · cases h
  · exact fixed_of_oneMark h (by decide)

theorem factor_yields : Yields (factor inner) (.level .factor) :=
  chain_yields (l := .factor) (operand_yields hInner) fun h => fixed_of_oneMark h (by decide)

theorem term_yields : Yields (term inner) (.level .term) :=
  chain_yields (l := .term) (factor_yields hInner) fixed_of_productOperator

theorem expr_yields : Yields (expr inner) (.level .expr) :=
  chain_yields (l := .expr) (term_yields hInner) fun h => fixed_of_oneMark h (by decide)

omit hInner in
theorem fixed_of_comparison {op : String} (h : comparison s = .accept op t) :
    op ∈ comparisons ∧ Fixed op s t := by
  rcases accept_of_orElse h with hMark | hWord
  · obtain ⟨hMem, hFixed⟩ := fixed_of_oneMark hMark (by decide)
    exact ⟨List.mem_append_left ["in"] hMem, hFixed⟩
  · obtain ⟨hMem, hFixed⟩ := fixed_of_oneKeyword hWord
    obtain rfl := List.mem_singleton.mp hMem
    exact ⟨by decide, hFixed⟩

theorem atomicCondition_yields : Yields (atomicCondition inner) .atomicCondition := by
  intro s t tree h
  obtain ⟨_, _, _, hLeft, hGap, hAfterGap⟩ := accept_of_thenGap h
  obtain ⟨op?, c, hOp, hAfterOp⟩ := bind_eq_accept_iff.mp hAfterGap
  have hTree := expr_yields hInner hLeft
  rcases accept_of_optional hOp with ⟨rfl, rfl⟩ | ⟨op, rfl, hAccept⟩
  · obtain ⟨rfl, rfl⟩ := pure_eq_accept_iff.mp hAfterOp
    exact .value hTree hGap
  · obtain ⟨_, hGap', hRest'⟩ := accept_of_gap hAfterOp
    obtain ⟨_, rfl, hRight⟩ := accept_of_map hRest'
    obtain ⟨hMem, hFixed⟩ := fixed_of_comparison hAccept
    exact .comparison hTree hGap hMem hFixed hGap'
      (expr_yields hInner (require_eq_accept_iff.mp hRight))

theorem negation_yields : Yields (negation inner) .logicAtom := by
  intro s t tree h
  obtain ⟨_, _, _, hNot, hGap, hRest⟩ := accept_of_thenGap h
  obtain ⟨_, rfl, hOperand⟩ := accept_of_map hRest
  exact .negation (fixed_of_keyword hNot) hGap
    (hInner.logicAtom (require_eq_accept_iff.mp hOperand))

theorem logicAtom_yields : Yields (logicAtom inner) .logicAtom := by
  intro s t tree h
  rcases accept_of_orElse h with hNegation | hAtomic
  · exact negation_yields hInner hNegation
  · exact .atom (atomicCondition_yields hInner hAtomic)

theorem conjunction_yields : Yields (conjunction inner) (.level .conjunction) :=
  chain_yields (l := .conjunction) (logicAtom_yields hInner) fixed_of_oneKeyword

theorem disjunction_yields : Yields (disjunction inner) (.level .disjunction) :=
  chain_yields (l := .disjunction) (conjunction_yields hInner) fixed_of_oneKeyword

theorem quantification_yields : Yields (quantification inner) .quantification := by
  intro s t tree h
  obtain ⟨_, _, _, hWord, hGap₁, hRest⟩ := accept_of_thenGap h
  obtain ⟨_, _, _, hBound, hGap₂, hRest⟩ := accept_of_thenGap hRest
  obtain ⟨_, _, _, hIn, hGap₃, hRest⟩ := accept_of_thenGap hRest
  obtain ⟨_, _, _, hDomain, hGap₄, hRest⟩ := accept_of_thenGap hRest
  obtain ⟨_, _, _, hColon, hGap₅, hRest⟩ := accept_of_thenGap hRest
  obtain ⟨_, rfl, hBody⟩ := accept_of_map hRest
  obtain ⟨hMem, hFixed⟩ := fixed_of_oneKeyword hWord
  exact .quantification hMem hFixed hGap₁
    (lexeme_of_name (require_eq_accept_iff.mp hBound)) hGap₂
    (fixed_of_keyword (require_eq_accept_iff.mp hIn)) hGap₃
    (hInner.operand (require_eq_accept_iff.mp hDomain)) hGap₄
    (fixed_of_literal (require_eq_accept_iff.mp hColon) (by decide)) hGap₅
    (hInner.condition (commit_eq_accept_iff.mp hBody))

theorem condition_yields : Yields (condition inner) (.level .condition) := by
  intro s t tree h
  obtain ⟨tree?, a, hQuantification, hRest⟩ := bind_eq_accept_iff.mp h
  rcases accept_of_optional hQuantification with ⟨rfl, rfl⟩ | ⟨quantification, rfl, hAccept⟩
  · exact chain_yields (l := .condition) (disjunction_yields hInner) fixed_of_oneKeyword hRest
  · obtain ⟨rfl, rfl⟩ := pure_eq_accept_iff.mp hRest
    exact .quantified (quantification_yields hInner hAccept)

end

/-! ## Closing the circle -/

theorem nested_sound (n : Nat) : (nested n).Sound := by
  induction n with
  | zero =>
    exact ⟨fun h => absurd h fail_ne_accept, fun h => absurd h fail_ne_accept,
      fun h => absurd h fail_ne_accept, fun h => absurd h fail_ne_accept⟩
  | succ n ih =>
    exact ⟨condition_yields ih, logicAtom_yields ih, expr_yields ih, operand_yields ih⟩

theorem anyCondition_yields : Yields anyCondition (.level .condition) :=
  fun h => (nested_sound _).condition h

end TopicSpec.Grammar
