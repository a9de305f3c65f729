import TopicSpec.Proofs.Grammar.Derivation

/-! # How a tree is spelled

A derivation says where each part of a tree begins and ends. Here the text between these places is
accounted for character by character: it consists of the lexemes of the tree, of the fixed words and
marks of its productions, of parentheses around conditions that serve as operands, and of gaps.
-/

namespace TopicSpec
open Grammar Scan
set_option autoImplicit false

namespace Rule

/-- The fixed words and marks of a production, apart from those that are lexemes of the tree. -/
def marks : Rule → List String
  | property => [":"]
  | globalScope => ["globally"]
  | afterUntil => ["after", "until"]
  | untilScope => ["until"]
  | existence => ["some"]
  | absence => ["no"]
  | response => ["causes"]
  | prevention => ["forbids"]
  | requirement => ["requires"]
  | frequency | timeAmount => ["within"]
  | message => ["as"]
  | guard => ["\x7b", "\x7d"]
  | quantification => ["in", ":"]
  | functionCall => ["(", ")"]
  | enumLiteral => ["\x7b", ",", "\x7d"]
  | rangeLiteral => ["to", ","]
  | variableReference => ["@"]
  | fieldAccess => ["."]
  | arrayAccess => ["[", "]"]
  | _ => []

/-- The productions that have operands among their parts. -/
def takesOperands : Rule → Bool
  | factor | negativeNumber | quantification => true
  | _ => false

/-- What a node of the production is derived from. -/
def nonterminal : Rule → Nonterminal
  | property => .property
  | assumption => .assumption
  | topLevelCondition => .topLevelCondition
  | globalScope | afterUntil | untilScope => .scope
  | activator => .activator
  | terminator => .terminator
  | existence | absence | response | prevention | requirement => .pattern
  | frequency | timeAmount => .bound
  | event => .event
  | message => .message
  | topicName => .topic
  | guard => .guard
  | quantification => .quantification
  | condition => .level .condition
  | disjunction => .level .disjunction
  | conjunction => .level .conjunction
  | negation => .logicAtom
  | atomicCondition => .atomicCondition
  | expr => .level .expr
  | term => .level .term
  | factor => .level .factor
  | negativeNumber | numberConstant | boolean | string | number | enumLiteral | rangeLiteral
  | functionCall => .operand
  | variableReference | ownField | fieldAccess => .reference false
  | arrayAccess => .reference true

end Rule

namespace Grammar

/-- The trees are spelled one after the other between two places of a text, as parts of a node of
the production if there is one. -/
inductive Spelled : Option Rule → List SyntaxTree → List Char → List Char → Prop where
  | nil {rule? : Option Rule} (s : List Char) : Spelled rule? [] s s
  | gap {rule? : Option Rule} {trees : List SyntaxTree} {s a t : List Char} :
    Gap s a → Spelled rule? trees a t → Spelled rule? trees s t
  | mark {rule : Rule} {word : String} {trees : List SyntaxTree} {s a t : List Char} :
    word ∈ rule.marks → Fixed word s a → Spelled (some rule) trees a t →
    Spelled (some rule) trees s t
  | leaf {rule? : Option Rule} {token : Token} {trees : List SyntaxTree} {a t : List Char} :
    token.text ≠ "" → Spelled rule? trees a t →
    Spelled rule? (.leaf token :: trees) (token.text.toList ++ a) t
  | node {rule? : Option Rule} {rule : Rule} {children trees : List SyntaxTree}
      {s a t : List Char} :
    Derives rule.nonterminal (.node rule children) s a → Spelled (some rule) children s a →
    Spelled rule? trees a t → Spelled rule? (.node rule children :: trees) s t
  | parenthesized {rule : Rule} {children trees : List SyntaxTree} {b c d e t : List Char} :
    rule.takesOperands = true → Gap b c →
    Derives (.level .condition) (.node .condition children) c d →
    Spelled (some .condition) children c d → Gap d (')' :: e) → Spelled (some rule) trees e t →
    Spelled (some rule) (.node .condition children :: trees) ('(' :: b) t

namespace Spelled

variable {rule : Rule} {rule? : Option Rule} {trees xs ys : List SyntaxTree}
  {word : String} {kind : TokenKind} {s a t : List Char}

theorem append (hFirst : Spelled rule? xs s a) (hSecond : Spelled rule? ys a t) :
    Spelled rule? (xs ++ ys) s t := by
  induction hFirst with
  | nil => exact hSecond
  | gap hGap _ ih => exact .gap hGap (ih hSecond)
  | mark hWord hFixed _ ih => exact .mark hWord hFixed (ih hSecond)
  | leaf hText _ ih => exact .leaf hText (ih hSecond)
  | node hDerives hChildren _ _ ih => exact .node hDerives hChildren (ih hSecond)
  | parenthesized hRule hOpen hDerives hChildren hClose _ _ ih =>
    exact .parenthesized hRule hOpen hDerives hChildren hClose (ih hSecond)

theorem cons {tree : SyntaxTree} (hFirst : Spelled rule? [tree] s a)
    (hRest : Spelled rule? trees a t) : Spelled rule? (tree :: trees) s t := hFirst.append hRest

theorem fixed (h : Fixed word s a) (hWord : word ≠ "") (hRest : Spelled rule? trees a t) :
    Spelled rule? (.leaf ⟨kind, word⟩ :: trees) s t := by
  rw [h.1]
  exact .leaf hWord hRest

theorem lexeme {language : List Char → Prop} {word : List Char} (h : Lexeme language word s a)
    (hWord : word ≠ []) (hRest : Spelled rule? trees a t) :
    Spelled rule? (.token kind word :: trees) s t := by
  have hText : String.ofList word ≠ "" := by simpa using hWord
  have hLeaf : Spelled rule? (.token kind word :: trees) ((String.ofList word).toList ++ a) t :=
    .leaf hText hRest
  rwa [String.toList_ofList, ← h.1] at hLeaf

end Spelled

/-! ## Lexemes are not empty -/

section
variable {word : List Char}

theorem ne_nil_of_isIdentifier (h : IsIdentifier word) : word ≠ [] := by
  obtain ⟨c, more, rfl, -⟩ := h
  exact List.cons_ne_nil c more

theorem ne_nil_of_isName (h : IsName word) : word ≠ [] := ne_nil_of_isIdentifier h.1

theorem ne_nil_of_isTopicName (h : IsTopicName word) : word ≠ [] := by
  obtain ⟨lead, first, more, rfl, -, hFirst, -⟩ := h
  simp [ne_nil_of_isIdentifier hFirst]

theorem ne_nil_of_isQuoted (h : IsQuoted word) : word ≠ [] := by
  obtain ⟨inner, rfl, -⟩ := h
  simp

theorem ne_nil_of_isNumber (h : IsNumber word) : word ≠ [] := by
  obtain ⟨whole, part, power, rfl, hWhole, -⟩ := h
  simp [hWhole.1]

end

theorem ne_empty_of_mem {word : String} {words : List String} (h : word ∈ words)
    (hWords : "" ∉ words) : word ≠ "" := by
  rintro rfl
  exact hWords h

theorem Level.ne_empty_of_mem_operators {l : Level} {op : String} (h : op ∈ l.operators) :
    op ≠ "" := ne_empty_of_mem h (by cases l <;> decide)

/-! ## Derivations are spelled -/

theorem Level.nonterminal_rule (l : Level) : l.rule.nonterminal = .level l := by cases l <;> rfl

/-- Where a condition in parentheses is expected. -/
def Nonterminal.isOperand : Nonterminal → Bool
  | operand | front .factor false => true
  | _ => false

theorem Level.isOperand_operand (l : Level) :
    l.operand.isOperand = (Nonterminal.front l false).isOperand := by
  cases l <;> rfl

/-- The production has room for what is derived from the nonterminal. -/
def Room (n : Nonterminal) (rule? : Option Rule) : Prop :=
  n.isOperand = true → ∃ rule, rule? = some rule ∧ rule.takesOperands = true

theorem Level.room_front (l : Level) (linked : Bool) : Room (.front l linked) (some l.rule) := by
  intro h
  refine ⟨l.rule, rfl, ?_⟩
  cases l <;> cases linked <;> first | rfl | cases h

theorem Level.room_operand (l : Level) : Room l.operand (some l.rule) := by
  intro h
  exact l.room_front false (l.isOperand_operand ▸ h)

/-- The level of precedence whose nodes are derived from the nonterminal. -/
def Nonterminal.level? : Nonterminal → Option Level
  | level l | front l true => some l
  | _ => none

structure SpelledAs (n : Nonterminal) (tree : SyntaxTree) (s t : List Char) : Prop where
  alone : ∀ rule?, Room n rule? → Spelled rule? [tree] s t
  /-- A node of a level of precedence takes up the gap behind it. -/
  level : ∀ l, n.level? = some l →
    ∃ children, tree = .node l.rule children ∧ Spelled (some l.rule) children s t

section
variable {n : Nonterminal} {l : Level} {rule : Rule} {children : List SyntaxTree}
  {tree : SyntaxTree} {s t : List Char}

theorem spelledAs_node (hDerives : Derives rule.nonterminal (.node rule children) s t)
    (h : Spelled (some rule) children s t) (hLevel : n.level? = none) :
    SpelledAs n (.node rule children) s t where
  alone _ _ := .node hDerives h (.nil t)
  level l hn := by
    rw [hLevel] at hn
    cases hn

theorem spelledAs_level (hDerives : Derives (.level l) (.node l.rule children) s t)
    (h : Spelled (some l.rule) children s t) (hn : n.level? = some l) :
    SpelledAs n (.node l.rule children) s t where
  alone _ _ := .node (l.nonterminal_rule ▸ hDerives) h (.nil t)
  level k hk := by
    obtain rfl := Option.some.inj (hn.symm.trans hk)
    exact ⟨children, rfl, h⟩

theorem spelled_listed {parts : List Part} (h : Listed s parts t)
    (hParts : ∀ part ∈ parts, SpelledAs (.level .expr) part.tree part.start part.stop) :
    Spelled (some .enumLiteral) (parts.map Part.tree) s t := by
  induction h with
  | nil => exact .nil _
  | @cons _ _ _ _ part parts hGap hComma hGap' _ ih =>
    have hHead := (hParts part List.mem_cons_self).alone (some .enumLiteral) nofun
    have hTail := ih fun part hPart => hParts part (List.mem_cons_of_mem _ hPart)
    exact .gap hGap (.mark (by decide) hComma (.gap hGap' (hHead.cons hTail)))

theorem entry_of_mem {P : Rule → String → Prop} {word : String} {table : List (Rule × String)}
    (h : (rule, word) ∈ table) (hTable : ∀ entry ∈ table, P entry.1 entry.2) : P rule word :=
  hTable _ h

abbrev IsPatternMark (rule : Rule) (word : String) : Prop :=
  word ∈ rule.marks ∧ rule.nonterminal = .pattern

theorem spelledAs_of_derives (h : Derives n tree s t) : SpelledAs n tree s t := by
  induction h with
  | @first l _ _ _ _ ih =>
    refine ⟨fun rule? hRoom => ih.alone rule? ?_, nofun⟩
    rwa [Room, l.isOperand_operand]
  | @link l linked left right op s a b c d t hLeft hGap hOp hFixed hGap' hRight ihLeft ihRight =>
    have hWord := Level.ne_empty_of_mem_operators hOp
    have hBehind := Spelled.gap hGap' (ihRight.alone _ l.room_operand)
    have hChildren : Spelled (some l.rule) [left, .leaf ⟨.operator, op⟩, right] s t :=
      (ihLeft.alone _ (l.room_front linked)).cons (.gap hGap (.fixed hFixed hWord hBehind))
    exact spelledAs_level (.chained (.link hLeft hGap hOp hFixed hGap' hRight) (.nothing t))
      hChildren rfl
  | @lone l _ _ _ t hFront hGap ih =>
    have hChildren := (ih.alone _ (l.room_front false)).cons (.gap hGap (.nil t))
    exact spelledAs_level (.lone hFront hGap) hChildren rfl
  | @chained l _ _ _ t hFront hGap ih =>
    -- The front is the node itself, and the gap behind it becomes a part of the node.
    obtain ⟨children, rfl, hChildren⟩ := ih.level l rfl
    have hAll := hChildren.append (.gap hGap (.nil t))
    rw [List.append_nil] at hAll
    exact spelledAs_level (.chained hFront hGap) hAll rfl
  | quantified hQuantification ih =>
    exact spelledAs_level (l := .condition) (.quantified hQuantification)
      (ih.alone (some .condition) nofun) rfl
  | quantification hWord hQuantifier hGap₁ hName hGap₂ hIn hGap₃ hDomain hGap₄ hColon hGap₅ hBody
      ihDomain ihBody =>
    have hBehind := (ihDomain.alone (some .quantification) fun _ => ⟨_, rfl, rfl⟩).cons
      (.gap hGap₄ (.mark (by decide) hColon (.gap hGap₅ (ihBody.alone _ nofun))))
    refine spelledAs_node (.quantification hWord hQuantifier hGap₁ hName hGap₂ hIn hGap₃ hDomain
      hGap₄ hColon hGap₅ hBody) ?_ rfl
    exact .fixed hQuantifier (ne_empty_of_mem hWord (by decide)) (.gap hGap₁
      (.lexeme hName (ne_nil_of_isName hName.2) (.gap hGap₂
        (.mark (by decide) hIn (.gap hGap₃ hBehind)))))
  | negation hNot hGap hTree ih =>
    exact spelledAs_node (.negation hNot hGap hTree)
      (.fixed hNot (by decide) (.gap hGap (ih.alone _ nofun))) rfl
  | atom _ ih => exact ⟨fun rule? _ => ih.alone rule? nofun, nofun⟩
  | value hTree hGap ih =>
    exact spelledAs_node (.value hTree hGap) ((ih.alone _ nofun).cons (.gap hGap (.nil _))) rfl
  | comparison hLeft hGap hOp hFixed hGap' hRight ihLeft ihRight =>
    have hBehind := Spelled.gap hGap' (ihRight.alone (some .atomicCondition) nofun)
    exact spelledAs_node (.comparison hLeft hGap hOp hFixed hGap' hRight)
      ((ihLeft.alone _ nofun).cons
        (.gap hGap (.fixed hFixed (ne_empty_of_mem hOp (by decide)) hBehind))) rfl
  | negativeNumber hMinus hGap hTree ih =>
    exact spelledAs_node (.negativeNumber hMinus hGap hTree)
      (.fixed hMinus (by decide) (.gap hGap (ih.alone _ fun _ => ⟨_, rfl, rfl⟩))) rfl
  | parenthesized hOpen hGap hTree hGap' hClose ih =>
    -- The tree does not show the parentheses, so the production around it needs room for them.
    refine ⟨?_, nofun⟩
    intro rule? hRoom
    obtain ⟨rule, rfl, hRule⟩ := hRoom rfl
    obtain ⟨children, rfl, hChildren⟩ := ih.level .condition rfl
    obtain ⟨rfl, -⟩ := hOpen
    obtain ⟨rfl, -⟩ := hClose
    exact .parenthesized hRule hGap hTree hChildren hGap' (.nil _)
  | numberConstant hWord hFixed =>
    exact spelledAs_node (.numberConstant hWord hFixed)
      (.fixed hFixed (ne_empty_of_mem hWord (by decide)) (.nil _)) rfl
  | boolean hWord hFixed =>
    exact spelledAs_node (.boolean hWord hFixed)
      (.fixed hFixed (ne_empty_of_mem hWord (by decide)) (.nil _)) rfl
  | string hWord =>
    exact spelledAs_node (.string hWord) (.lexeme hWord (ne_nil_of_isQuoted hWord.2) (.nil _)) rfl
  | number hWord =>
    exact spelledAs_node (.number hWord) (.lexeme hWord (ne_nil_of_isNumber hWord.2) (.nil _)) rfl
  | @enumLiteral member more _ _ _ _ _ hOpen hGap hMembers hListed hGap' hClose ih =>
    have hMore := spelled_listed hListed fun part hPart => ih part (List.mem_cons_of_mem _ hPart)
    have hAll := hMore.append (.gap hGap' (.mark (by decide) hClose (.nil _)))
    rw [List.append_nil] at hAll
    have hFirst := (ih member List.mem_cons_self).alone (some .enumLiteral) nofun
    exact spelledAs_node (.enumLiteral hOpen hGap hMembers hListed hGap' hClose)
      (.mark (by decide) hOpen (.gap hGap (hFirst.cons hAll))) rfl
  | rangeLiteral hLeft hOpen hGap₁ hLower hGap₂ hWord hSeparator hGap₃ hUpper hGap₄ hRight hClose
      ihLower ihUpper =>
    refine spelledAs_node (.rangeLiteral hLeft hOpen hGap₁ hLower hGap₂ hWord hSeparator hGap₃
      hUpper hGap₄ hRight hClose) ?_ rfl
    exact .fixed hOpen (ne_empty_of_mem hLeft (by decide)) (.gap hGap₁
      ((ihLower.alone _ nofun).cons (.gap hGap₂ (.mark hWord hSeparator (.gap hGap₃
        ((ihUpper.alone _ nofun).cons (.gap hGap₄
          (.fixed hClose (ne_empty_of_mem hRight (by decide)) (.nil _)))))))))
  | functionCall hName hGap₁ hOpen hGap₂ hArgument hGap₃ hClose ih =>
    have hBehind := (ih.alone (some .functionCall) nofun).cons
      (.gap hGap₃ (.mark (by decide) hClose (.nil _)))
    refine spelledAs_node (.functionCall hName hGap₁ hOpen hGap₂ hArgument hGap₃ hClose) ?_ rfl
    exact .lexeme hName (ne_nil_of_isName hName.2) (.gap hGap₁
      (.mark (by decide) hOpen (.gap hGap₂ hBehind)))
  | referred _ ih => exact ⟨fun rule? _ => ih.alone rule? nofun, nofun⟩
  | variableReference hAt hName =>
    exact spelledAs_node (.variableReference hAt hName)
      (.mark (by decide) hAt (.lexeme hName (ne_nil_of_isIdentifier hName.2) (.nil _))) rfl
  | ownField hName =>
    exact spelledAs_node (.ownField hName) (.lexeme hName (ne_nil_of_isName hName.2) (.nil _)) rfl
  | fieldAccess hBase hPoint hName ih =>
    exact spelledAs_node (.fieldAccess hBase hPoint hName)
      ((ih.alone _ nofun).cons
        (.mark (by decide) hPoint (.lexeme hName (ne_nil_of_isName hName.2) (.nil _)))) rfl
  | arrayAccess hBase hOpen hGap hPosition hGap' hClose ihBase ihPosition =>
    have hBehind := (ihPosition.alone (some .arrayAccess) nofun).cons
      (.gap hGap' (.mark (by decide) hClose (.nil _)))
    exact spelledAs_node (.arrayAccess hBase hOpen hGap hPosition hGap' hClose)
      ((ihBase.alone _ nofun).cons (.mark (by decide) hOpen (.gap hGap hBehind))) rfl
  | topic hName =>
    exact spelledAs_node (.topic hName) (.lexeme hName (ne_nil_of_isTopicName hName.2) (.nil _)) rfl
  | guard hOpen hGap hCondition hGap' hClose ih =>
    exact spelledAs_node (.guard hOpen hGap hCondition hGap' hClose)
      (.mark (by decide) hOpen (.gap hGap
        ((ih.alone _ nofun).cons (.gap hGap' (.mark (by decide) hClose (.nil _)))))) rfl
  | message hName ih =>
    exact spelledAs_node (.message hName) (ih.alone _ nofun) rfl
  | messageAs hName hGap hAs hGap' hWord ih =>
    refine spelledAs_node (.messageAs hName hGap hAs hGap' hWord) ?_ rfl
    exact (ih.alone _ nofun).cons (.gap hGap (.mark (by decide) hAs (.gap hGap'
      (.lexeme hWord (ne_nil_of_isIdentifier hWord.2) (.nil _)))))
  | event hMessage ih =>
    exact spelledAs_node (.event hMessage) (ih.alone _ nofun) rfl
  | guardedEvent hMessage hGap hGuard ihMessage ihGuard =>
    exact spelledAs_node (.guardedEvent hMessage hGap hGuard)
      ((ihMessage.alone _ nofun).cons (.gap hGap (ihGuard.alone _ nofun))) rfl
  | activator hEvent ih =>
    exact spelledAs_node (.activator hEvent) (ih.alone _ nofun) rfl
  | terminator hEvent ih =>
    exact spelledAs_node (.terminator hEvent) (ih.alone _ nofun) rfl
  | globalScope hWord =>
    exact spelledAs_node (.globalScope hWord) (.mark (by decide) hWord (.nil _)) rfl
  | afterScope hAfter hGap hStart hGap' ih =>
    exact spelledAs_node (.afterScope hAfter hGap hStart hGap')
      (.mark (by decide) hAfter (.gap hGap ((ih.alone _ nofun).cons (.gap hGap' (.nil _))))) rfl
  | afterUntilScope hAfter hGap₁ hStart hGap₂ hUntil hGap₃ hStop ihStart ihStop =>
    have hBehind := Spelled.gap hGap₃ (ihStop.alone (some .afterUntil) nofun)
    exact spelledAs_node (.afterUntilScope hAfter hGap₁ hStart hGap₂ hUntil hGap₃ hStop)
      (.mark (by decide) hAfter (.gap hGap₁ ((ihStart.alone _ nofun).cons
        (.gap hGap₂ (.mark (by decide) hUntil hBehind)))))
      rfl
  | untilScope hUntil hGap hStop ih =>
    exact spelledAs_node (.untilScope hUntil hGap hStop)
      (.mark (by decide) hUntil (.gap hGap (ih.alone _ nofun))) rfl
  | bound hGap₁ hWithin hGap₂ hAmount hGap₃ hUnit hFixed =>
    obtain ⟨hMark, hWord, hNonterminal⟩ := entry_of_mem (P := fun rule unit =>
      "within" ∈ rule.marks ∧ unit ≠ "" ∧ rule.nonterminal = .bound) hUnit (by decide)
    refine spelledAs_node ?_ ?_ rfl
    · exact hNonterminal ▸ .bound hGap₁ hWithin hGap₂ hAmount hGap₃ hUnit hFixed
    · exact .gap hGap₁ (.mark hMark hWithin (.gap hGap₂
        (.lexeme hAmount (ne_nil_of_isNumber hAmount.2) (.gap hGap₃
          (.fixed hFixed hWord (.nil _))))))
  | unaryPattern hRule hWord hGap hEvent ih =>
    obtain ⟨hMark, hNonterminal⟩ := entry_of_mem (P := IsPatternMark) hRule (by decide)
    refine spelledAs_node ?_ ?_ rfl
    · exact hNonterminal ▸ .unaryPattern hRule hWord hGap hEvent
    · exact .mark hMark hWord (.gap hGap (ih.alone _ nofun))
  | boundedUnaryPattern hRule hWord hGap hEvent hLimit ihEvent ihLimit =>
    obtain ⟨hMark, hNonterminal⟩ := entry_of_mem (P := IsPatternMark) hRule (by decide)
    refine spelledAs_node ?_ ?_ rfl
    · exact hNonterminal ▸ .boundedUnaryPattern hRule hWord hGap hEvent hLimit
    · exact .mark hMark hWord (.gap hGap
        ((ihEvent.alone _ nofun).cons (ihLimit.alone _ nofun)))
  | binaryPattern hRule hLeft hGap hWord hGap' hRight ihLeft ihRight =>
    obtain ⟨hMark, hNonterminal⟩ := entry_of_mem (P := IsPatternMark) hRule (by decide)
    refine spelledAs_node ?_ ?_ rfl
    · exact hNonterminal ▸ .binaryPattern hRule hLeft hGap hWord hGap' hRight
    · exact (ihLeft.alone _ nofun).cons (.gap hGap (.mark hMark hWord
        (.gap hGap' (ihRight.alone _ nofun))))
  | boundedBinaryPattern hRule hLeft hGap hWord hGap' hRight hLimit ihLeft ihRight ihLimit =>
    obtain ⟨hMark, hNonterminal⟩ := entry_of_mem (P := IsPatternMark) hRule (by decide)
    refine spelledAs_node ?_ ?_ rfl
    · exact hNonterminal ▸ .boundedBinaryPattern hRule hLeft hGap hWord hGap' hRight hLimit
    · exact (ihLeft.alone _ nofun).cons (.gap hGap (.mark hMark hWord
        (.gap hGap' ((ihRight.alone _ nofun).cons (ihLimit.alone _ nofun)))))
  | property hGap₁ hScope hGap₂ hColon hGap₃ hPattern hGap₄ ihScope ihPattern =>
    have hBehind := (ihPattern.alone (some .property) nofun).cons (.gap hGap₄ (.nil _))
    exact spelledAs_node (.property hGap₁ hScope hGap₂ hColon hGap₃ hPattern hGap₄)
      (.gap hGap₁ ((ihScope.alone _ nofun).cons
        (.gap hGap₂ (.mark (by decide) hColon (.gap hGap₃ hBehind))))) rfl
  | assumption hGap₁ hName hGap₂ hCondition hGap₃ ihName ihCondition =>
    have hBehind := (ihCondition.alone (some .assumption) nofun).cons (.gap hGap₃ (.nil _))
    exact spelledAs_node (.assumption hGap₁ hName hGap₂ hCondition hGap₃)
      (.gap hGap₁ ((ihName.alone _ nofun).cons (.gap hGap₂ hBehind))) rfl
  | topLevelCondition hGap hTree hGap' ih =>
    exact spelledAs_node (.topLevelCondition hGap hTree hGap')
      (.gap hGap ((ih.alone _ nofun).cons (.gap hGap' (.nil _)))) rfl

end

end Grammar
end TopicSpec
