import TopicSpec.Proofs.Grammar.SpecificationSound
import TopicSpec.Proofs.Grammar.Spelling

/-! # What a tree takes from its text

The tree that is read from a text is a derivation of all of it. The lexemes of the tree stand in the
text in their order, each part of the tree takes one piece of the text, and what is between them is
accounted for.
-/

namespace TopicSpec
open Grammar Scan
set_option autoImplicit false

namespace SyntaxTree

mutual
/-- The lexemes of a tree from left to right. -/
def leaves : SyntaxTree → List Token
  | leaf token => [token]
  | node _ children => leavesAll children

def leavesAll : List SyntaxTree → List Token
  | [] => []
  | tree :: trees => leaves tree ++ leavesAll trees
end

/-- The second tree is the first or a part of it. -/
inductive Has : SyntaxTree → SyntaxTree → Prop where
  | self (tree : SyntaxTree) : Has tree tree
  | inside {rule : Rule} {children : List SyntaxTree} {child found : SyntaxTree} :
    child ∈ children → Has child found → Has (.node rule children) found

end SyntaxTree

namespace Grammar

/-! ## Pieces of a text -/

theorem suffix_of_fixed {word : String} {s t : List Char} (h : Fixed word s t) : t <:+ s :=
  ⟨word.toList, h.1.symm⟩

variable {rule? : Option Rule} {rule : Rule} {trees children : List SyntaxTree}
  {tree : SyntaxTree} {s a t : List Char}

theorem Spelled.suffix (h : Spelled rule? trees s t) : t <:+ s := by
  induction h with
  | nil s => exact List.suffix_refl s
  | gap hGap _ ih => exact ih.trans (suffix_of_gap hGap)
  | mark _ hFixed _ ih => exact ih.trans (suffix_of_fixed hFixed)
  | leaf _ _ ih => exact ih.trans (List.suffix_append _ _)
  | node _ _ _ ihChildren ihTrees => exact ihTrees.trans ihChildren
  | parenthesized _ hOpen _ _ hClose _ ihChildren ihTrees =>
    have hInside := (ihTrees.trans (List.suffix_cons _ _)).trans (suffix_of_gap hClose)
    exact ((hInside.trans ihChildren).trans (suffix_of_gap hOpen)).trans (List.suffix_cons _ _)

/-- A node of the production takes a piece of the text between the places. -/
def Takes (rule : Rule) (children : List SyntaxTree) (s t : List Char) : Prop :=
  ∃ a b, a <:+ s ∧ b <:+ a ∧ t <:+ b ∧ Derives rule.nonterminal (.node rule children) a b ∧
    Spelled (some rule) children a b

theorem Takes.mono {s' t' : List Char} (h : Takes rule children s t) (hStart : s <:+ s')
    (hStop : t' <:+ t) : Takes rule children s' t' := by
  obtain ⟨a, b, hA, hB, hT, hDerives, hSpelled⟩ := h
  exact ⟨a, b, hA.trans hStart, hB, hStop.trans hT, hDerives, hSpelled⟩

theorem takes_of_has (hDerives : Derives rule.nonterminal (.node rule children) s t)
    (h : Spelled (some rule) children s t) {inner : Rule} {parts : List SyntaxTree}
    (hHas : (SyntaxTree.node rule children).Has (.node inner parts))
    (hInside : ∀ child ∈ children, child.Has (.node inner parts) → Takes inner parts s t) :
    Takes inner parts s t := by
  cases hHas with
  | self => exact ⟨s, t, List.suffix_refl s, h.suffix, List.suffix_refl t, hDerives, h⟩
  | inside hChild hHas => exact hInside _ hChild hHas

theorem Spelled.takes {inner : Rule} {parts : List SyntaxTree} (h : Spelled rule? trees s t)
    (hTree : tree ∈ trees) (hHas : tree.Has (.node inner parts)) : Takes inner parts s t := by
  induction h generalizing tree with
  | nil => cases hTree
  | gap hGap _ ih => exact (ih hTree hHas).mono (suffix_of_gap hGap) (List.suffix_refl _)
  | mark _ hFixed _ ih => exact (ih hTree hHas).mono (suffix_of_fixed hFixed) (List.suffix_refl _)
  | leaf _ _ ih =>
    rcases List.mem_cons.mp hTree with rfl | hTree
    · cases hHas
    · exact (ih hTree hHas).mono (List.suffix_append _ _) (List.suffix_refl _)
  | node hDerives hChildren hTrees ihChildren ihTrees =>
    rcases List.mem_cons.mp hTree with rfl | hTree
    · have hHere := takes_of_has hDerives hChildren hHas fun _ hChild => ihChildren hChild
      exact hHere.mono (List.suffix_refl _) hTrees.suffix
    · exact (ihTrees hTree hHas).mono hChildren.suffix (List.suffix_refl _)
  | parenthesized _ hOpen hDerives hChildren hClose hTrees ihChildren ihTrees =>
    have hStart := (suffix_of_gap hOpen).trans (List.suffix_cons '(' _)
    have hStop := (List.suffix_cons ')' _).trans (suffix_of_gap hClose)
    rcases List.mem_cons.mp hTree with rfl | hTree
    · have hHere := @takes_of_has .condition _ _ _ hDerives hChildren _ _ hHas
        fun _ hChild => ihChildren hChild
      exact hHere.mono hStart (hTrees.suffix.trans hStop)
    · have hBehind := (hStop.trans hChildren.suffix).trans hStart
      exact (ihTrees hTree hHas).mono hBehind (List.suffix_refl _)

/-! ## Lexemes in their order -/

/-- The lexemes stand in the text one after the other, from the given offset on. -/
inductive Placed (text : List Char) : Nat → List Token → Prop where
  | nil (offset : Nat) : Placed text offset []
  | cons {offset place : Nat} {token : Token} {tokens : List Token} :
    offset ≤ place → token.text ≠ "" → token.text.toList <+: text.drop place →
    Placed text (place + token.text.toList.length) tokens → Placed text offset (token :: tokens)

variable {text : List Char} {offset : Nat} {tokens : List Token}

theorem Placed.mono {earlier : Nat} (h : Placed text offset tokens) (hOffset : earlier ≤ offset) :
    Placed text earlier tokens := by
  cases h with
  | nil => exact .nil earlier
  | cons hPlace hText hStands hMore => exact .cons (Nat.le_trans hOffset hPlace) hText hStands hMore

def offsetOf (text s : List Char) : Nat := text.length - s.length

theorem offsetOf_le {s t : List Char} (h : t <:+ s) : offsetOf text s ≤ offsetOf text t := by
  have := h.length_le
  unfold offsetOf
  omega

theorem Spelled.placed (h : Spelled rule? trees s t) (hText : s <:+ text)
    (hMore : Placed text (offsetOf text t) tokens) :
    Placed text (offsetOf text s) (SyntaxTree.leavesAll trees ++ tokens) := by
  induction h generalizing tokens with
  | nil => exact hMore
  | gap hGap _ ih =>
    have hSuffix := suffix_of_gap hGap
    exact (ih (hSuffix.trans hText) hMore).mono (offsetOf_le hSuffix)
  | mark _ hFixed _ ih =>
    have hSuffix := suffix_of_fixed hFixed
    exact (ih (hSuffix.trans hText) hMore).mono (offsetOf_le hSuffix)
  | @leaf _ token trees a t hToken _ ih =>
    have hBehind := ih ((List.suffix_append _ _).trans hText) hMore
    -- The offset of the leaf is the length of what stands before it.
    obtain ⟨before, rfl⟩ := hText
    have hHere : offsetOf (before ++ (token.text.toList ++ a)) (token.text.toList ++ a) =
        before.length := by simp [offsetOf]
    have hAfter : offsetOf (before ++ (token.text.toList ++ a)) a =
        before.length + token.text.toList.length := by
      simp only [offsetOf, List.length_append]
      omega
    rw [hHere]
    refine .cons (Nat.le_refl _) hToken ?_ (hAfter ▸ hBehind)
    rw [List.drop_left]
    exact List.prefix_append _ _
  | node _ hChildren _ ihChildren ihTrees =>
    rw [SyntaxTree.leavesAll, SyntaxTree.leaves, List.append_assoc]
    exact ihChildren hText (ihTrees (hChildren.suffix.trans hText) hMore)
  | parenthesized _ hOpen _ hChildren hClose _ ihChildren ihTrees =>
    have hStart := (suffix_of_gap hOpen).trans (List.suffix_cons '(' _)
    have hStop := (List.suffix_cons ')' _).trans (suffix_of_gap hClose)
    have hInside := hStart.trans hText
    rw [SyntaxTree.leavesAll, SyntaxTree.leaves, List.append_assoc]
    have hBehind := ihTrees ((hStop.trans hChildren.suffix).trans hInside) hMore
    exact (ihChildren hInside (hBehind.mono (offsetOf_le hStop))).mono (offsetOf_le hStart)

/-! ## What no tree has -/

variable {l : Level}

theorem rule_of_level (h : Derives (.level l) tree s t) :
    ∃ children, tree = .node l.rule children := by
  obtain ⟨children, hTree, -⟩ := (spelledAs_of_derives h).level l rfl
  exact ⟨children, hTree⟩

/-- A reference that can be indexed ends with a name. -/
def EndsWithName (tree : SyntaxTree) (s t : List Char) : Prop :=
  ∃ rule parts word used, rule ∈ [Rule.variableReference, .ownField, .fieldAccess] ∧
    tree = .node rule (parts ++ [.token .name word]) ∧ s = used ++ word ++ t

theorem endsWithName_of_derives (h : Derives (.reference false) tree s t) :
    EndsWithName tree s t := by
  cases h with
  | variableReference hAt hName =>
    exact ⟨_, [], _, _, by simp, rfl, by rw [hAt.1, hName.1, List.append_assoc]⟩
  | ownField hName => exact ⟨_, [], _, [], by simp, rfl, hName.1⟩
  | @fieldAccess _ base name _ _ _ _ hBase hPoint hName =>
    obtain ⟨used, rfl⟩ := ((spelledAs_of_derives hBase).alone none nofun).suffix
    refine ⟨_, [base], name, used ++ ".".toList, by simp, rfl, ?_⟩
    rw [hPoint.1, hName.1]
    simp

theorem index_of_derives (h : Derives (.reference true) (.node .arrayAccess children) s t) :
    ∃ base position b, children = [base, position] ∧ EndsWithName base s ('[' :: b) := by
  cases h with
  | arrayAccess hBase hOpen _ _ _ _ =>
    obtain ⟨rfl, -⟩ := hOpen
    exact ⟨_, _, _, rfl, endsWithName_of_derives hBase⟩

theorem compared_of_derives
    (h : Derives .atomicCondition (.node .atomicCondition children) s t) :
    ∀ child ∈ children, (∃ token, child = .leaf token) ∨ ∃ parts, child = .node .expr parts := by
  cases h with
  | value hTree _ =>
    obtain ⟨parts, rfl⟩ := rule_of_level hTree
    simp [Level.rule]
  | comparison hLeft _ _ _ _ hRight =>
    obtain ⟨left, rfl⟩ := rule_of_level hLeft
    obtain ⟨right, rfl⟩ := rule_of_level hRight
    simp [Level.rule]

/-- A quantification, as it is or as the whole of a condition. -/
def IsQuantification (tree : SyntaxTree) : Prop :=
  ∃ parts, tree = .node .quantification parts ∨
    tree = .node .condition [.node .quantification parts]

def Level.isLogical : Level → Bool
  | condition | disjunction | conjunction => true
  | _ => false

theorem not_isQuantification_of_logicAtom (h : Derives .logicAtom tree s t) :
    ¬IsQuantification tree := by
  cases h with
  | negation => simp [IsQuantification]
  | atom hAtomic => cases hAtomic <;> simp [IsQuantification]

theorem Level.not_isQuantification_of_operand (hl : l.isLogical = true)
    (h : Derives l.operand tree s t) : ¬IsQuantification tree := by
  cases l with
  | condition =>
    obtain ⟨parts, rfl⟩ := rule_of_level (l := .disjunction) h
    simp [IsQuantification, Level.rule]
  | disjunction =>
    obtain ⟨parts, rfl⟩ := rule_of_level (l := .conjunction) h
    simp [IsQuantification, Level.rule]
  | conjunction => exact not_isQuantification_of_logicAtom h
  | expr | term | factor => cases hl

theorem Level.not_isQuantification_of_front {linked : Bool} (hl : l.isLogical = true)
    (h : Derives (.front l linked) tree s t) : ¬IsQuantification tree := by
  cases h with
  | first hOperand => exact l.not_isQuantification_of_operand hl hOperand
  | link => cases l <;> simp_all [IsQuantification, Level.rule, Level.isLogical]

theorem Level.eq_of_isQuantification {child : SyntaxTree} (hl : l.isLogical = true)
    (h : Derives (.level l) (.node l.rule children) s t) (hChild : child ∈ children)
    (hQuantification : IsQuantification child) : l = .condition ∧ children = [child] := by
  cases h with
  | lone hFront _ =>
    obtain rfl := List.mem_singleton.mp hChild
    exact absurd hQuantification (l.not_isQuantification_of_front hl hFront)
  | chained hFront _ =>
    cases hFront with
    | link hLeft _ _ _ _ hRight =>
      simp only [List.mem_cons, List.not_mem_nil, or_false] at hChild
      rcases hChild with rfl | rfl | rfl
      · exact absurd hQuantification (l.not_isQuantification_of_front hl hLeft)
      · simp [IsQuantification] at hQuantification
      · exact absurd hQuantification (l.not_isQuantification_of_operand hl hRight)
  | quantified _ =>
    obtain rfl := List.mem_singleton.mp hChild
    exact ⟨rfl, rfl⟩

theorem quantification_of_derives {child : SyntaxTree}
    (hRule : rule ∈ [Rule.condition, .disjunction, .conjunction, .negation])
    (h : Derives rule.nonterminal (.node rule children) s t) (hChild : child ∈ children)
    (hQuantification : IsQuantification child) : rule = .condition ∧ children = [child] := by
  simp only [List.mem_cons, List.not_mem_nil, or_false] at hRule
  rcases hRule with rfl | rfl | rfl | rfl
  · have hAlone := Level.eq_of_isQuantification (l := .condition) rfl h hChild hQuantification
    exact ⟨rfl, hAlone.2⟩
  · have hAlone := Level.eq_of_isQuantification (l := .disjunction) rfl h hChild hQuantification
    cases hAlone.1
  · have hAlone := Level.eq_of_isQuantification (l := .conjunction) rfl h hChild hQuantification
    cases hAlone.1
  · cases h with
    | negation _ _ hTree =>
      simp only [List.mem_cons, List.not_mem_nil, or_false] at hChild
      rcases hChild with rfl | rfl
      · simp [IsQuantification] at hQuantification
      · exact absurd hQuantification (not_isQuantification_of_logicAtom hTree)
    | atom hAtomic => cases hAtomic

end Grammar

section
variable {form : Form} {text : String} {tree : SyntaxTree}

theorem spelled_of_ofText (h : SyntaxTree.ofText form text = .ok tree) :
    Spelled none [tree] text.toList [] := by
  apply (spelledAs_of_derives (SyntaxTree.derives_of_ofText h)).alone
  cases form <;> nofun

theorem takes_of_ofText {rule : Rule} {children : List SyntaxTree}
    (h : SyntaxTree.ofText form text = .ok tree) (hHas : tree.Has (.node rule children)) :
    Takes rule children text.toList [] :=
  (spelled_of_ofText h).takes (List.mem_singleton_self tree) hHas

end

/-- The tree that is read from a text is derived from all of it. Its lexemes, the fixed words of its
productions, parentheses around operands and gaps make up the text; the lexemes stand in it in
their order, and every part of the tree takes a piece of it that this part is derived from. An index
stands right behind a base that is no element, nothing that is compared is a comparison, and no
operand of a logical operator is a quantification. -/
theorem tree_derives_text {form : Form} {text : String} {tree : SyntaxTree}
    (h : SyntaxTree.ofText form text = .ok tree) :
    Derives form.nonterminal tree text.toList [] ∧ Spelled none [tree] text.toList [] ∧
    Placed text.toList 0 tree.leaves ∧
    (∀ rule children, tree.Has (.node rule children) → Takes rule children text.toList []) ∧
    (∀ children, tree.Has (.node .arrayAccess children) →
      ∃ base position s b, children = [base, position] ∧ s <:+ text.toList ∧
        EndsWithName base s ('[' :: b)) ∧
    (∀ children, tree.Has (.node .atomicCondition children) → ∀ child ∈ children,
      (∃ token, child = .leaf token) ∨ ∃ parts, child = .node .expr parts) ∧
    ∀ rule ∈ [Rule.condition, .disjunction, .conjunction, .negation], ∀ children,
      tree.Has (.node rule children) → ∀ child ∈ children, IsQuantification child →
        rule = .condition ∧ children = [child] := by
  have hSpelled := spelled_of_ofText h
  have hTakes : ∀ rule children, tree.Has (.node rule children) →
      Takes rule children text.toList [] := fun _ _ hHas => takes_of_ofText h hHas
  refine ⟨SyntaxTree.derives_of_ofText h, hSpelled, ?_, hTakes, ?_, ?_, ?_⟩
  · have hPlaced := hSpelled.placed (List.suffix_refl _) (.nil _)
    simpa [offsetOf, SyntaxTree.leavesAll] using hPlaced
  · intro children hHas
    obtain ⟨s, t, hStart, -, -, hNode, -⟩ := hTakes _ _ hHas
    obtain ⟨base, position, b, hChildren, hBase⟩ := index_of_derives hNode
    exact ⟨base, position, s, b, hChildren, hStart, hBase⟩
  · intro children hHas
    obtain ⟨s, t, -, -, -, hNode, -⟩ := hTakes _ _ hHas
    exact compared_of_derives hNode
  · intro rule hRule children hHas child hChild
    obtain ⟨s, t, -, -, -, hNode, -⟩ := hTakes _ _ hHas
    exact quantification_of_derives hRule hNode hChild

theorem guarded_absence_derives : ∃ tree,
    SyntaxTree.ofText .property "globally: no a \x7b not (x[1] < 2) and b \x7d # end" = .ok tree ∧
    Derives .property tree
      "globally: no a \x7b not (x[1] < 2) and b \x7d # end".toList [] := by
  have hRead : (SyntaxTree.ofText .property
      "globally: no a \x7b not (x[1] < 2) and b \x7d # end").isOk = true := by decide +kernel
  cases hTree : SyntaxTree.ofText .property
      "globally: no a \x7b not (x[1] < 2) and b \x7d # end" with
  | error e => simp [hTree, Except.isOk, Except.toBool] at hRead
  | ok tree => exact ⟨tree, rfl, (tree_derives_text hTree).1⟩

end TopicSpec
