import TopicSpec.Proofs.Grammar.Derivation
import TopicSpec.Proofs.Phrase.Contract
import TopicSpec.Proofs.Phrase.Literals
import TopicSpec.Proofs.Phrase.Tree

/-! # Expressions that a text can say

The expressions, with their types, that trees of the grammar stand for. What the builders of phrases
refuse and what the grammar has no form for is left out, and no tree is referred to. A tree stands
for nothing else, and has no literal that is not one of its lexemes. -/

namespace TopicSpec
open Grammar Scan
set_option autoImplicit false

/-- The literals of lexemes, and those that have taken up a minus sign. -/
inductive Literal.Written : Literal → Prop where
  | constant {word : String} {l : Literal} :
    word ∈ ["PI", "INF", "NAN"] → ofConstant word = .ok l → Written l
  | boolean {word : String} {l : Literal} :
    word ∈ ["True", "False"] → ofBoolean word = .ok l → Written l
  | quoted {word : String} {l : Literal} :
    IsQuoted word.toList → ofQuoted word = .ok l → Written l
  | number {word : String} {l : Literal} :
    IsNumber word.toList → ofNumber word = .ok l → Written l
  | negated {l negative : Literal} : Written l → l.negate? = some negative → Written negative

namespace Expr

/-- A variable, a field or an element. -/
def isReference : Expr → Bool
  | var _ | field _ _ | index _ _ => true
  | _ => false

def isIndex : Expr → Bool
  | index _ _ => true
  | _ => false

inductive Written : Expr → Ty → Prop where
  | literal {l : Literal} :
    l.Written → Written (.literal l) (.only (Typing.literalKind l.value))
  | var {name : String} : IsIdentifier name.toList → Written (.var name) .any
  | ownField {name : String} : IsName name.toList → Written (.field .this name) .any
  | field {base : Expr} {name : String} {baseType ty : Ty} :
    base.isReference = true → Written base baseType → IsName name.toList →
    Typing.nodeType (.field base name) [baseType] = .ok ty → Written (.field base name) ty
  | index {base position : Expr} {baseType positionType ty : Ty} :
    base.isReference = true → base.isIndex = false → Written base baseType →
    Written position positionType →
    Typing.nodeType (.index base position) [baseType, positionType] = .ok ty →
    Written (.index base position) ty
  | call {function : String} {argument : Expr} {argumentType ty : Ty} :
    IsName function.toList → Written argument argumentType →
    Typing.nodeType (.call function argument) [argumentType] = .ok ty →
    Written (.call function argument) ty
  | set {members : List (Expr × Ty)} {ty : Ty} :
    members ≠ [] → (∀ m ∈ members, Written m.1 m.2) →
    Typing.nodeType (.set (members.map (·.1))) (members.map (·.2)) = .ok ty →
    Written (.set (members.map (·.1))) ty
  | range {lower upper : Expr} {excludeLower excludeUpper : Bool} {lowerType upperType ty : Ty} :
    Written lower lowerType → Written upper upperType →
    Typing.nodeType (.range lower upper excludeLower excludeUpper) [lowerType, upperType] = .ok ty →
    Written (.range lower upper excludeLower excludeUpper) ty
  | not {operand : Expr} {operandType ty : Ty} :
    Written operand operandType → Typing.nodeType (.unary .not operand) [operandType] = .ok ty →
    Written (.unary .not operand) ty
  | neg {operand : Expr} {operandType ty : Ty} :
    Written operand operandType → (∀ l, operand = .literal l → l.negate? = none) →
    Typing.nodeType (.unary .neg operand) [operandType] = .ok ty → Written (.unary .neg operand) ty
  | binary {op : BinaryOp} {left right : Expr} {leftType rightType ty : Ty} :
    Written left leftType → Written right rightType →
    Typing.nodeType (.binary op left right) [leftType, rightType] = .ok ty →
    Written (.binary op left right) ty
  | quantified {quantifier : Quantifier} {bound : String} {domain body : Expr}
      {domainType bodyType ty : Ty} :
    IsName bound.toList → Written domain domainType → Written body bodyType →
    Typing.nodeType (.quantified quantifier bound domain body) [domainType, bodyType] = .ok ty →
    Written (.quantified quantifier bound domain body) ty

end Expr

/-! ## What a builder has built -/

namespace Phrase

variable {rule : Rule} {p q r s : Phrase} {e : Expr} {ty : Ty}

theorem eq_of_toExpr {found : Expr × Ty} (h : p.toExpr rule = .ok found) :
    p = .expr found.1 found.2 := by
  cases p <;> cases h
  rfl

theorem of_ofChain_lone (h : ofChain rule [p] = .ok (.expr e ty)) : p = .expr e ty := by
  obtain ⟨found, hFound, hPure⟩ := ok_of_bind h
  obtain rfl := eq_of_toExpr hFound
  exact Except.ok.inj hPure

theorem of_ofChain_linked {symbol : String}
    (h : ofChain rule [p, .token ⟨.operator, symbol⟩, q] = .ok (.expr e ty)) :
    ∃ op l tl r tr, p = .expr l tl ∧ q = .expr r tr ∧ e = .binary op l r ∧
      Typing.nodeType e [tl, tr] = .ok ty := by
  simp only [ofChain, toToken, if_true, ok_bind] at h
  split at h
  · cases h
  · rename_i op _
    obtain ⟨⟨l, tl⟩, hLeft, hRest⟩ := ok_of_bind h
    obtain ⟨⟨r, tr⟩, hRight, hTyped⟩ := ok_of_bind hRest
    obtain ⟨rfl, hType⟩ := nodeType_of_typed hTyped
    exact ⟨op, l, tl, r, tr, eq_of_toExpr hLeft, eq_of_toExpr hRight, rfl, hType⟩

theorem of_ofNegation (h : ofNegation rule [p, q] = .ok (.expr e ty)) :
    ∃ x tx, q = .expr x tx ∧ e = .unary .not x ∧ Typing.nodeType e [tx] = .ok ty := by
  obtain ⟨⟨x, tx⟩, hOperand, hTyped⟩ := ok_of_bind h
  obtain ⟨rfl, hType⟩ := nodeType_of_typed hTyped
  exact ⟨x, tx, eq_of_toExpr hOperand, rfl, hType⟩

/-- A minus sign goes into a number, and stays before any other expression. -/
theorem of_ofNegativeNumber (h : ofNegativeNumber rule [p, q] = .ok (.expr e ty)) :
    ∃ x tx, q = .expr x tx ∧
      ((∃ l negative, x = .literal l ∧ l.negate? = some negative ∧ e = .literal negative ∧
        Typing.nodeType e [] = .ok ty) ∨
      (∀ l, x = .literal l → l.negate? = none) ∧ e = .unary .neg x ∧
        Typing.nodeType e [tx] = .ok ty) := by
  obtain ⟨⟨x, tx⟩, hOperand, hRest⟩ := ok_of_bind h
  refine ⟨x, tx, eq_of_toExpr hOperand, ?_⟩
  dsimp only at hRest
  split at hRest
  · rename_i negative hNegate
    obtain ⟨rfl, hType⟩ := nodeType_of_typed hRest
    split at hNegate
    · exact .inl ⟨_, negative, rfl, hNegate, rfl, hType⟩
    · cases hNegate
  · rename_i hNegate
    obtain ⟨rfl, hType⟩ := nodeType_of_typed hRest
    refine .inr ⟨?_, rfl, hType⟩
    rintro l rfl
    exact hNegate

theorem of_ofQuantification {word name : String}
    (h : ofQuantification rule [.token ⟨.quantifier, word⟩, .token ⟨.name, name⟩, p, q] =
      .ok (.expr e ty)) :
    ∃ quantifier d td b tb, p = .expr d td ∧ q = .expr b tb ∧
      e = .quantified quantifier name d b ∧ Typing.nodeType e [td, tb] = .ok ty := by
  simp only [ofQuantification, toToken, if_true, ok_bind] at h
  split at h
  · cases h
  · rename_i quantifier _
    obtain ⟨⟨d, td⟩, hDomain, hRest⟩ := ok_of_bind h
    obtain ⟨⟨b, tb⟩, hBody, hTyped⟩ := ok_of_bind hRest
    obtain ⟨rfl, hType⟩ := nodeType_of_typed hTyped
    exact ⟨quantifier, d, td, b, tb, eq_of_toExpr hDomain, eq_of_toExpr hBody, rfl, hType⟩

theorem of_ofFunctionCall {name : String}
    (h : ofFunctionCall rule [.token ⟨.name, name⟩, p] = .ok (.expr e ty)) :
    ∃ x tx, p = .expr x tx ∧ e = .call name x ∧ Typing.nodeType e [tx] = .ok ty := by
  simp only [ofFunctionCall, toToken, if_true, ok_bind] at h
  obtain ⟨⟨x, tx⟩, hArgument, hTyped⟩ := ok_of_bind h
  obtain ⟨rfl, hType⟩ := nodeType_of_typed hTyped
  exact ⟨x, tx, eq_of_toExpr hArgument, rfl, hType⟩

theorem of_mapM_toExpr {phrases : List Phrase} {members : List (Expr × Ty)}
    (h : phrases.mapM (toExpr rule) = .ok members) :
    phrases = members.map fun m => .expr m.1 m.2 := by
  induction phrases generalizing members with
  | nil =>
    obtain rfl := Except.ok.inj h
    rfl
  | cons p phrases ih =>
    rw [List.mapM_cons] at h
    obtain ⟨m, hHead, hRest⟩ := ok_of_bind h
    obtain ⟨more, hMore, hPure⟩ := ok_of_bind hRest
    obtain rfl := Except.ok.inj hPure
    rw [eq_of_toExpr hHead, ih hMore, List.map_cons]

theorem of_ofEnumLiteral {phrases : List Phrase}
    (h : ofEnumLiteral rule phrases = .ok (.expr e ty)) :
    ∃ members : List (Expr × Ty), members ≠ [] ∧
      phrases = members.map (fun m => .expr m.1 m.2) ∧ e = .set (members.map (·.1)) ∧
      Typing.nodeType e (members.map (·.2)) = .ok ty := by
  unfold ofEnumLiteral at h
  split at h
  · cases h
  · rename_i hNonempty
    obtain ⟨members, hMembers, hTyped⟩ := ok_of_bind h
    obtain ⟨rfl, hType⟩ := nodeType_of_typed hTyped
    obtain rfl := of_mapM_toExpr hMembers
    exact ⟨members, by rintro rfl; exact hNonempty rfl, rfl, rfl, hType⟩

theorem of_ofRangeLiteral {left right : String}
    (h : ofRangeLiteral rule [.token ⟨.leftDelimiter, left⟩, p, q,
      .token ⟨.rightDelimiter, right⟩] = .ok (.expr e ty)) :
    ∃ l tl u tu excludeLower excludeUpper, p = .expr l tl ∧ q = .expr u tu ∧
      e = .range l u excludeLower excludeUpper ∧ Typing.nodeType e [tl, tu] = .ok ty := by
  simp only [ofRangeLiteral, toToken, if_true, ok_bind] at h
  obtain ⟨excludeLower, -, hRest₁⟩ := ok_of_bind h
  obtain ⟨excludeUpper, -, hRest₂⟩ := ok_of_bind hRest₁
  obtain ⟨⟨l, tl⟩, hLower, hRest₃⟩ := ok_of_bind hRest₂
  obtain ⟨⟨u, tu⟩, hUpper, hTyped⟩ := ok_of_bind hRest₃
  obtain ⟨rfl, hType⟩ := nodeType_of_typed hTyped
  exact ⟨l, tl, u, tu, excludeLower, excludeUpper, eq_of_toExpr hLower, eq_of_toExpr hUpper, rfl,
    hType⟩

theorem of_ofVariable {name : String}
    (h : ofVariable rule [.token ⟨.name, name⟩] = .ok (.expr e ty)) : e = .var name ∧ ty = .any := by
  obtain ⟨rfl, hType⟩ := @nodeType_of_typed (.var name) e [] ty h
  exact ⟨rfl, (Except.ok.inj hType).symm⟩

theorem of_ofOwnField {name : String}
    (h : ofOwnField rule [.token ⟨.name, name⟩] = .ok (.expr e ty)) :
    e = .field .this name ∧ ty = .any := by
  obtain ⟨rfl, hType⟩ := @nodeType_of_typed (.field .this name) e [.only .message] ty h
  exact ⟨rfl, (Except.ok.inj hType).symm⟩

theorem of_ofFieldAccess {name : String}
    (h : ofFieldAccess rule [p, .token ⟨.name, name⟩] = .ok (.expr e ty)) :
    ∃ x tx, p = .expr x tx ∧ e = .field x name ∧ Typing.nodeType e [tx] = .ok ty := by
  obtain ⟨⟨x, tx⟩, hBase, hRest⟩ := ok_of_bind h
  simp only [toToken, if_true, ok_bind] at hRest
  obtain ⟨rfl, hType⟩ := nodeType_of_typed hRest
  exact ⟨x, tx, eq_of_toExpr hBase, rfl, hType⟩

theorem of_ofArrayAccess (h : ofArrayAccess rule [p, q] = .ok (.expr e ty)) :
    ∃ x tx i ti, p = .expr x tx ∧ q = .expr i ti ∧ e = .index x i ∧
      Typing.nodeType e [tx, ti] = .ok ty := by
  obtain ⟨⟨x, tx⟩, hBase, hRest⟩ := ok_of_bind h
  obtain ⟨⟨i, ti⟩, hPosition, hTyped⟩ := ok_of_bind hRest
  obtain ⟨rfl, hType⟩ := nodeType_of_typed hTyped
  exact ⟨x, tx, i, ti, eq_of_toExpr hBase, eq_of_toExpr hPosition, rfl, hType⟩

theorem of_ofLiteral {kind : TokenKind} {read : String → Except SpecError Literal}
    {lexeme : String} (h : ofLiteral rule kind read [.token ⟨kind, lexeme⟩] = .ok (.expr e ty)) :
    ∃ l, read lexeme = .ok l ∧ e = .literal l ∧ ty = .only (Typing.literalKind l.value) := by
  simp only [ofLiteral, toToken, if_true, ok_bind] at h
  obtain ⟨l, hRead, hTyped⟩ := ok_of_bind h
  obtain ⟨rfl, hType⟩ := nodeType_of_typed hTyped
  exact ⟨l, hRead, rfl, (Except.ok.inj hType).symm⟩

/-- What a nonterminal demands of its expressions beyond their being written. -/
def Fits (n : Nonterminal) (e : Expr) : Prop :=
  match n with
  | .reference indexed => e.isReference = true ∧ (indexed = false → e.isIndex = false)
  | _ => True

/-- The expression is one that the nonterminal can be, and has its literals from the tree. -/
structure Reads (n : Nonterminal) (tree : SyntaxTree) (e : Expr) (ty : Ty) : Prop where
  written : e.Written ty
  fits : Fits n e
  literals : e.LiteralsAmong tree.leaves

variable {resolver : Option Resolver} {tree child : SyntaxTree} {children : List SyntaxTree}

/-- An expression that is handed on from a part. -/
theorem Reads.part {m n : Nonterminal} (h : Reads m child e ty) (hFits : Fits n e)
    (hChild : child ∈ children) : Reads n (.node rule children) e ty where
  written := h.written
  fits := hFits
  literals := h.literals.mono (SyntaxTree.leaves_subset_leavesAll hChild)

theorem reads_literal {n : Nonterminal} {token : Token} {l : Literal} (hFits : Fits n (.literal l))
    (hWritten : l.Written) (hLexeme : l.lexeme = token.text) (hDenotes : token.Denotes l.value) :
    Reads n (.node rule [.leaf token]) (.literal l) (.only (Typing.literalKind l.value)) where
  written := .literal hWritten
  fits := hFits
  literals :=
    Expr.literalsAmong_literal (Literal.isAmong_of_denotes List.mem_cons_self hLexeme hDenotes)

theorem reads_of_derives {n : Nonterminal} {start stop : List Char}
    (h : Derives n tree start stop) (hSense : n.sense = .expression)
    (hTop : n ≠ .topLevelCondition) (hTree : ofTree resolver tree = .ok (.expr e ty)) :
    Reads n tree e ty := by
  induction h generalizing e ty with
  | @first l _ _ _ _ ih =>
    have hOperand := ih l.sense_operand (by cases l <;> simp [Level.operand]) hTree
    exact ⟨hOperand.written, trivial, hOperand.literals⟩
  | @link l _ _ _ _ _ _ _ _ _ _ _ _ _ _ _ _ ihLeft ihRight =>
    obtain ⟨p, _, q, hLeft, hLeaf, hRight, hNode⟩ := children_of_three hTree
    obtain rfl := Except.ok.inj hLeaf
    rw [ofNode_level] at hNode
    obtain ⟨op, x, tx, y, ty', rfl, rfl, rfl, hType⟩ := of_ofChain_linked hNode
    have hX := ihLeft rfl (by simp) hLeft
    have hOperand : l.operand ≠ .topLevelCondition := by cases l <;> simp [Level.operand]
    have hY := ihRight l.sense_operand hOperand hRight
    exact ⟨.binary hX.written hY.written hType, trivial, Expr.literalsAmong_of_children (by simp)
      (by simp [Expr.parts, Expr.children, hX.literals, hY.literals])⟩
  | lone _ _ ih =>
    obtain ⟨p, hChild, hNode⟩ := children_of_one hTree
    rw [ofNode_level] at hNode
    obtain rfl := of_ofChain_lone hNode
    exact (ih rfl (by simp) hChild).part trivial List.mem_cons_self
  | quantified _ ih | value _ _ ih =>
    obtain ⟨p, hChild, hNode⟩ := children_of_one hTree
    obtain rfl := of_ofChain_lone hNode
    exact (ih rfl (by simp) hChild).part trivial List.mem_cons_self
  | chained _ _ ih | atom _ ih | parenthesized _ _ _ _ _ ih | referred _ ih =>
    have hSame := ih rfl (by simp) hTree
    exact ⟨hSame.written, trivial, hSame.literals⟩
  | quantification _ _ _ hName _ _ _ _ _ _ _ _ ihDomain ihBody =>
    obtain ⟨_, _, p, q, hQuantifier, hBound, hDomain, hBody, hNode⟩ := children_of_four hTree
    obtain rfl := Except.ok.inj hQuantifier
    obtain rfl := Except.ok.inj hBound
    obtain ⟨quantifier, d, td, b, tb, rfl, rfl, rfl, hType⟩ := of_ofQuantification hNode
    have hD := ihDomain rfl (by simp) hDomain
    have hB := ihBody rfl (by simp) hBody
    exact ⟨.quantified (by simpa using hName.2) hD.written hB.written hType, trivial,
      Expr.literalsAmong_of_children (by simp) (by simp [Expr.parts, hD.literals, hB.literals])⟩
  | negation _ _ _ ih =>
    obtain ⟨p, q, -, hOperand, hNode⟩ := children_of_two hTree
    obtain ⟨x, tx, rfl, rfl, hType⟩ := of_ofNegation (p := p) hNode
    have hX := ih rfl (by simp) hOperand
    exact ⟨.not hX.written hType, trivial, Expr.literalsAmong_of_children (by simp)
      (by simp [Expr.parts, Expr.children, hX.literals])⟩
  | comparison _ _ _ _ _ _ ihLeft ihRight =>
    obtain ⟨p, _, q, hLeft, hLeaf, hRight, hNode⟩ := children_of_three hTree
    obtain rfl := Except.ok.inj hLeaf
    obtain ⟨op, x, tx, y, ty', rfl, rfl, rfl, hType⟩ := of_ofChain_linked hNode
    have hX := ihLeft rfl (by simp) hLeft
    have hY := ihRight rfl (by simp) hRight
    exact ⟨.binary hX.written hY.written hType, trivial, Expr.literalsAmong_of_children (by simp)
      (by simp [Expr.parts, Expr.children, hX.literals, hY.literals])⟩
  | negativeNumber _ _ _ ih =>
    obtain ⟨p, q, -, hOperand, hNode⟩ := children_of_two hTree
    obtain ⟨x, tx, rfl, hCase⟩ := of_ofNegativeNumber (p := p) hNode
    have hX := ih rfl (by simp) hOperand
    rcases hCase with ⟨l, negative, rfl, hNegate, rfl, hType⟩ | ⟨hKeeps, rfl, hType⟩
    · have hAmong := (hX.literals [] l (.self _)).negated hNegate
      cases hX.written with
      | literal hLiteral =>
        obtain rfl := Except.ok.inj hType
        refine ⟨.literal (.negated hLiteral hNegate), trivial, Expr.literalsAmong_literal ?_⟩
        exact hAmong.mono (SyntaxTree.leaves_subset_leavesAll (by simp))
    · exact ⟨.neg hX.written hKeeps hType, trivial, Expr.literalsAmong_of_children (by simp)
        (by simp [Expr.parts, Expr.children, hX.literals])⟩
  | numberConstant hWord _ =>
    obtain ⟨l, hRead, rfl, rfl⟩ := of_ofLiteral (ofNode_of_lexeme hTree)
    have hConstant := ok_of_mapError hRead
    exact reads_literal trivial (.constant hWord hConstant) (lexeme_of_ofConstant hConstant)
      (denotes_of_ofConstant hWord hConstant)
  | boolean hWord _ =>
    obtain ⟨l, hRead, rfl, rfl⟩ := of_ofLiteral (ofNode_of_lexeme hTree)
    have hBoolean := ok_of_mapError hRead
    exact reads_literal trivial (.boolean hWord hBoolean) (lexeme_of_ofBoolean hBoolean)
      (denotes_of_ofBoolean hWord hBoolean)
  | @string word _ _ hLexeme =>
    obtain ⟨l, hRead, rfl, rfl⟩ := of_ofLiteral (ofNode_of_lexeme hTree)
    have hWord : IsQuoted (String.ofList word).toList := by simpa using hLexeme.2
    have hQuoted := ok_of_mapError hRead
    exact reads_literal trivial (.quoted hWord hQuoted) (lexeme_of_ofQuoted hQuoted)
      (denotes_of_ofQuoted hWord hQuoted)
  | @number word _ _ hLexeme =>
    obtain ⟨l, hRead, rfl, rfl⟩ := of_ofLiteral (ofNode_of_lexeme hTree)
    have hWord : IsNumber (String.ofList word).toList := by simpa using hLexeme.2
    exact reads_literal trivial (.number hWord hRead) (lexeme_of_ofNumber hRead)
      (denotes_of_ofNumber hWord hRead).1
  | @enumLiteral first more _ _ _ _ _ _ _ _ _ _ _ ih =>
    obtain ⟨phrases, hChildren, hNode⟩ := ok_of_bind hTree
    obtain ⟨members, hNonempty, rfl, rfl, hType⟩ := of_ofEnumLiteral hNode
    have hMembers : ∀ m ∈ members, ∃ child ∈ (first :: more).map Grammar.Part.tree,
        Reads (.level .expr) child m.1 m.2 := by
      intro m hMember
      obtain ⟨_, hTree, hChild⟩ := exists_tree_of_mem hChildren (List.mem_map_of_mem hMember)
      obtain ⟨part, hPart, rfl⟩ := List.mem_map.mp hTree
      exact ⟨part.tree, hTree, ih part hPart rfl (by simp) hChild⟩
    refine ⟨.set hNonempty (fun m hMember => ?_) hType, trivial,
      Expr.literalsAmong_of_children (by simp) fun part hPart => ?_⟩
    · obtain ⟨_, -, hReads⟩ := hMembers m hMember
      exact hReads.written
    · obtain ⟨_, hChild, rfl⟩ := List.mem_map.mp hPart
      obtain ⟨m, hMember, rfl⟩ := List.mem_map.mp hChild
      obtain ⟨child, hChild, hReads⟩ := hMembers m hMember
      exact ⟨child, hChild, hReads.literals⟩
  | rangeLiteral _ _ _ _ _ _ _ _ _ _ _ _ ihLower ihUpper =>
    obtain ⟨_, p, q, _, hLeft, hLower, hUpper, hRight, hNode⟩ := children_of_four hTree
    obtain rfl := Except.ok.inj hLeft
    obtain rfl := Except.ok.inj hRight
    obtain ⟨l, tl, u, tu, excludeLower, excludeUpper, rfl, rfl, rfl, hType⟩ :=
      of_ofRangeLiteral hNode
    have hL := ihLower rfl (by simp) hLower
    have hU := ihUpper rfl (by simp) hUpper
    exact ⟨.range hL.written hU.written hType, trivial, Expr.literalsAmong_of_children (by simp)
      (by simp [Expr.parts, Expr.children, hL.literals, hU.literals])⟩
  | functionCall hName _ _ _ _ _ _ ih =>
    obtain ⟨_, q, hLeaf, hArgument, hNode⟩ := children_of_two hTree
    obtain rfl := Except.ok.inj hLeaf
    obtain ⟨x, tx, rfl, rfl, hType⟩ := of_ofFunctionCall hNode
    have hX := ih rfl (by simp) hArgument
    exact ⟨.call (by simpa using hName.2) hX.written hType, trivial,
      Expr.literalsAmong_of_children (by simp) (by simp [Expr.parts, Expr.children, hX.literals])⟩
  | variableReference _ hName =>
    obtain ⟨rfl, rfl⟩ := of_ofVariable (ofNode_of_lexeme hTree)
    exact ⟨.var (by simpa using hName.2), ⟨rfl, fun _ => rfl⟩,
      Expr.literalsAmong_of_parts (by simp) (by simp [Expr.parts, Expr.children])⟩
  | ownField hName =>
    obtain ⟨rfl, rfl⟩ := of_ofOwnField (ofNode_of_lexeme hTree)
    refine ⟨.ownField (by simpa using hName.2), ⟨rfl, fun _ => rfl⟩,
      Expr.literalsAmong_of_parts (by simp) fun part hPart => ?_⟩
    obtain rfl := List.mem_singleton.mp hPart
    exact Expr.literalsAmong_of_parts (by simp) (by simp [Expr.parts, Expr.children])
  | fieldAccess _ _ hName ih =>
    obtain ⟨p, _, hBase, hLeaf, hNode⟩ := children_of_two hTree
    obtain rfl := Except.ok.inj hLeaf
    obtain ⟨x, tx, rfl, rfl, hType⟩ := of_ofFieldAccess hNode
    have hX := ih rfl (by simp) hBase
    exact ⟨.field hX.fits.1 hX.written (by simpa using hName.2) hType, ⟨rfl, fun _ => rfl⟩,
      Expr.literalsAmong_of_children (by simp) (by simp [Expr.parts, Expr.children, hX.literals])⟩
  | arrayAccess _ _ _ _ _ _ ihBase ihPosition =>
    obtain ⟨p, q, hBase, hPosition, hNode⟩ := children_of_two hTree
    obtain ⟨x, tx, i, ti, rfl, rfl, rfl, hType⟩ := of_ofArrayAccess hNode
    have hX := ihBase rfl (by simp) hBase
    have hI := ihPosition rfl (by simp) hPosition
    exact ⟨.index hX.fits.1 (hX.fits.2 rfl) hX.written hI.written hType, ⟨rfl, by simp⟩,
      Expr.literalsAmong_of_children (by simp)
        (by simp [Expr.parts, Expr.children, hX.literals, hI.literals])⟩
  | topLevelCondition => exact absurd rfl hTop
  | _ => cases hSense

theorem written_of_derives {n : Nonterminal} {start stop : List Char}
    (h : Derives n tree start stop) (hSense : n.sense = .expression)
    (hTop : n ≠ .topLevelCondition) (hTree : ofTree resolver tree = .ok (.expr e ty)) :
    e.Written ty :=
  (reads_of_derives h hSense hTop hTree).written

end Phrase
end TopicSpec
