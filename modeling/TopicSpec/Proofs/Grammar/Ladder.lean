import Mathlib.Tactic.IntervalCases
import TopicSpec.Proofs.Phrase.Tree
import TopicSpec.Proofs.Scan.Settlement

/-! # The levels of precedence as a ladder

Operands are read on the lowest rung and conditions on the highest. What is read on one rung is
read on the next one too, unless an operator of the joint between them follows; an operator that
does follow is taken up on its own rung and on no lower one. -/

namespace TopicSpec.Grammar
open Scan
set_option autoImplicit false

/-- The production of each rung. -/
def rung (inner : Inner) : Nat → Scan SyntaxTree
  | 0 => operand inner
  | 1 => factor inner
  | 2 => term inner
  | 3 => expr inner
  | 4 => logicAtom inner
  | 5 => conjunction inner
  | 6 => disjunction inner
  | _ => chain .condition (disjunction inner) (oneKeyword "implies" ["iff"])

/-- The operators between a rung and the next one. -/
def joint : Nat → Scan String
  | 0 => oneMark "**" []
  | 1 => productOperator
  | 2 => oneMark "+" ["-"]
  | 3 => comparison
  | 4 => oneKeyword "and" []
  | 5 => oneKeyword "or" []
  | _ => oneKeyword "implies" ["iff"]

/-- The joint of an operator. -/
def jointOf : BinaryOp → Nat
  | .pow => 0
  | .mul | .div => 1
  | .add | .sub => 2
  | .eq | .ne | .lt | .le | .gt | .ge | .mem => 3
  | .and => 4
  | .or => 5
  | .implies | .iff => 6

theorem jointOf_le (op : BinaryOp) : jointOf op ≤ 6 := by cases op <;> decide

theorem joint_jointOf (op : BinaryOp) (rest : List Char) :
    joint (jointOf op) (op.symbol.toList ++ ' ' :: rest) = .accept op.symbol (' ' :: rest) := by
  cases op <;> rfl

theorem joint_declines_below {op : BinaryOp} {k : Nat} (h : k < jointOf op) (rest : List Char) :
    Declines (joint k) (op.symbol.toList ++ ' ' :: rest) := by
  cases op <;> simp only [jointOf] at h <;> interval_cases k <;> exact ⟨_, _, rfl⟩

/-! ## What follows an expression -/

/-- What follows an expression in the text of one: the end, a closing mark or separator, the word
between the bounds of a range, or the brace behind a guard. -/
def Ends (s : List Char) : Prop :=
  s = [] ∨ (∃ c t, s = c :: t ∧ c ∈ [')', ']', '\x7d', ',', ':']) ∨
    (∃ t, s = ' ' :: 't' :: 'o' :: ' ' :: t) ∨ ∃ t, s = ' ' :: '\x7d' :: t

variable {s t : List Char}

theorem ends_mark {c : Char} (h : c ∈ [')', ']', '\x7d', ',', ':']) : Ends (c :: s) :=
  .inr (.inl ⟨c, s, rfl, h⟩)

theorem Ends.joint_declines (h : Ends s) {k : Nat} (hk : k ≤ 6) :
    Declines (joint k) (afterGap false s) := by
  rcases h with rfl | ⟨c, t, rfl, hc⟩ | ⟨t, rfl⟩ | ⟨t, rfl⟩
  · interval_cases k <;> exact ⟨_, _, rfl⟩
  · simp only [List.mem_cons, List.not_mem_nil, or_false] at hc
    rcases hc with rfl | rfl | rfl | rfl | rfl <;> interval_cases k <;> exact ⟨_, _, rfl⟩
  · interval_cases k <;> exact ⟨_, _, rfl⟩
  · interval_cases k <;> exact ⟨_, _, rfl⟩

/-! ## Chains -/

section
variable {rule : Rule} {operandOf : Scan SyntaxTree} {operator : Scan String} {g g' : Prop}
  {P Q : SyntaxTree → List Char → Prop} {m : List Char}

theorem chainLink_of_declines {front : Front} (h : Declines operator (afterGap false s)) :
    chainLink rule operandOf operator front s = .accept none (afterGap false s) := by
  refine bind_eq_accept_iff.mpr ⟨(), afterGap false s, rfl, ?_⟩
  exact bind_eq_accept_iff.mpr ⟨none, afterGap false s, optional_of_declines h, rfl⟩

/-- A chain of one operand. -/
theorem settles_chain_lone (hOperand : Settles g P (operandOf s))
    (hGap : ∀ tree rest, P tree rest → afterGap false rest = t) (hEnd : Declines operator t) :
    Settles g (fun tree rest => rest = t ∧ ∃ inner rest, tree = .node rule [inner] ∧ P inner rest)
      (chain rule operandOf operator s) := by
  refine settles_bind_pure hOperand fun tree rest hP => ?_
  have hLoop : repeated (chainLink rule operandOf operator) ⟨tree, false⟩ rest =
      .accept ⟨tree, false⟩ t := by
    have hLink : chainLink rule operandOf operator ⟨tree, false⟩ rest =
        .accept none (afterGap false rest) :=
      chainLink_of_declines ((hGap tree rest hP).symm ▸ hEnd)
    rw [hGap tree rest hP] at hLink
    exact repeatWithin_of_none _ hLink
  exact ⟨_, t, bind_eq_accept_iff.mpr ⟨_, t, hLoop, rfl⟩, rfl, tree, rest, rfl, hP⟩

/-- A chain of two operands. -/
theorem settles_chain_linked {op : String} {k : List Char} (hLeft : Settles g P (operandOf s))
    (hGap : ∀ tree rest, P tree rest → afterGap false rest = m) (hNonempty : m ≠ [])
    (hOp : operator m = .accept op k) (hRight : Settles g' Q (operandOf (afterGap false k)))
    (hGap' : ∀ tree rest, Q tree rest → afterGap false rest = t) (hEnd : Declines operator t) :
    Settles (g ∧ g') (fun tree rest => rest = t ∧ ∃ left right a b,
        tree = .node rule [left, .leaf ⟨.operator, op⟩, right] ∧ P left a ∧ Q right b)
      (chain rule operandOf operator s) := by
  refine settles_bind hLeft fun left rest hP => ?_
  have hRest : rest ≠ [] := by
    rintro rfl
    exact hNonempty (hGap left [] hP).symm
  obtain ⟨c, rest', rfl⟩ := List.exists_cons_of_ne_nil hRest
  -- The first round takes the operator and the operand behind it, the second one ends the loop.
  have hLink : Settles g' (fun next? a => ∃ next, next? = some next ∧
      (∃ right, next = ⟨.node rule [left, .leaf ⟨.operator, op⟩, right], true⟩ ∧ Q right a))
      (chainLink rule operandOf operator ⟨left, false⟩ (c :: rest')) := by
    have hSkip : gap (c :: rest') = .accept () m := by rw [← hGap left _ hP, gap]
    refine settles_bind_of_accept hSkip ?_
    refine settles_bind_of_accept (optional_eq_accept_some_iff.mpr hOp) ?_
    refine settles_bind_of_accept (gap_eq_accept k) ?_
    refine settles_bind_pure (settles_require hRight) fun right a hQ => ?_
    exact ⟨_, a, rfl, _, rfl, right, rfl, hQ⟩
  have hLoop : Settles (g' ∧ True) (fun front a => a = t ∧ ∃ right b,
      front = ⟨.node rule [left, .leaf ⟨.operator, op⟩, right], true⟩ ∧ Q right b)
      (repeated (chainLink rule operandOf operator) ⟨left, false⟩ (c :: rest')) := by
    refine settles_repeatWithin hLink ?_
    rintro next a ⟨right, rfl, hQ⟩
    have hEnd' : Declines operator (afterGap false a) := (hGap' right a hQ).symm ▸ hEnd
    have hLast : chainLink rule operandOf operator
        ⟨.node rule [left, .leaf ⟨.operator, op⟩, right], true⟩ a =
        .accept none (afterGap false a) := chainLink_of_declines hEnd'
    have hStop := repeatWithin_of_none rest'.length hLast
    exact settles_of_accept hStop trivial ⟨hGap' right a hQ, right, a, rfl, hQ⟩
  refine settles_bind_pure (hLoop.imp (and_iff_left trivial) fun _ _ h => h) ?_
  rintro _ a ⟨rfl, right, b, rfl, hQ⟩
  exact ⟨_, a, rfl, rfl, left, right, _, b, rfl, hP, hQ⟩

end

/-! ## Rungs -/

/-- The production that takes up the operators of a joint. -/
def jointRule : Nat → Rule
  | 0 => .factor
  | 1 => .term
  | 2 => .expr
  | 3 => .atomicCondition
  | 4 => .conjunction
  | 5 => .disjunction
  | _ => .condition

/-- The scanner reads a tree of the given expression, or rejects for good, as the condition says.
The text given is what is left behind the gap after the expression. -/
def Reads (resolver : Option Resolver) (condition : Prop) (e : Expr) (ty : Ty) (left : List Char) :
    Outcome SyntaxTree → Prop :=
  Settles condition fun tree rest =>
    afterGap false rest = left ∧ Phrase.ofTree resolver tree = .ok (.expr e ty)

section
variable {resolver : Option Resolver} {inner : Inner} {g g' : Prop} {e : Expr} {ty : Ty} {k : Nat}

theorem ofNode_jointRule (k : Nat) (phrases : List Phrase) :
    Phrase.ofNode resolver (jointRule k) phrases = Phrase.ofChain (jointRule k) phrases := by
  match k with
  | 0 | 1 | 2 | 3 | 4 | 5 | _ + 6 => rfl

theorem ofTree_lone {tree : SyntaxTree} (h : Phrase.ofTree resolver tree = .ok (.expr e ty)) :
    Phrase.ofTree resolver (.node (jointRule k) [tree]) = .ok (.expr e ty) := by
  rw [Phrase.ofTree_one h, ofNode_jointRule]
  rfl

theorem ofTree_linked {op : BinaryOp} {l r : Expr} {tl tr : Ty} {left right : SyntaxTree}
    (hLeft : Phrase.ofTree resolver left = .ok (.expr l tl))
    (hRight : Phrase.ofTree resolver right = .ok (.expr r tr))
    (hType : Typing.nodeType (.binary op l r) [tl, tr] = .ok ty) :
    Phrase.ofTree resolver (.node (jointRule k) [left, .leaf ⟨.operator, op.symbol⟩, right]) =
      .ok (.expr (.binary op l r) ty) := by
  rw [Phrase.ofTree_three hLeft (Phrase.ofTree_leaf _) hRight, ofNode_jointRule]
  simp only [Phrase.ofChain, Phrase.toToken, Phrase.toExpr, if_true, ok_bind,
    BinaryOp.ofSymbol?_symbol]
  exact Phrase.typed_eq_ok hType

theorem rung_succ (hk : k ≤ 6) (hComparison : k ≠ 3) :
    rung inner (k + 1) = chain (jointRule k) (rung inner k) (joint k) := by
  interval_cases k <;> first | rfl | contradiction

theorem settles_atomicCondition_lone {P : SyntaxTree → List Char → Prop}
    (h : Settles g P (expr inner s)) (hGap : ∀ tree rest, P tree rest → afterGap false rest = t)
    (hEnd : Declines comparison t) :
    Settles g (fun tree rest => rest = t ∧ ∃ lone rest, tree = .node .atomicCondition [lone] ∧
      P lone rest) (atomicCondition inner s) := by
  refine settles_bind_pure h fun tree rest hP => ?_
  refine ⟨.node .atomicCondition [tree], t, ?_, rfl, tree, rest, rfl, hP⟩
  refine bind_eq_accept_iff.mpr ⟨(), t, ?_, ?_⟩
  · rw [gap_eq_accept, hGap tree rest hP]
  · exact bind_eq_accept_iff.mpr ⟨none, t, optional_of_declines hEnd, rfl⟩

theorem reads_atomicCondition_linked {op : BinaryOp} {l r : Expr} {tl tr : Ty}
    {m k : List Char} (hLeft : Reads resolver g l tl m (expr inner s))
    (hOp : comparison m = .accept op.symbol k)
    (hRight : Reads resolver g' r tr t (expr inner (afterGap false k)))
    (hType : Typing.nodeType (.binary op l r) [tl, tr] = .ok ty) :
    Reads resolver (g ∧ g') (.binary op l r) ty t (atomicCondition inner s) := by
  refine settles_bind hLeft ?_
  rintro left rest ⟨rfl, hLeftTree⟩
  refine settles_bind_of_accept (gap_eq_accept rest) ?_
  refine settles_bind_of_accept (optional_eq_accept_some_iff.mpr hOp) ?_
  refine settles_bind_of_accept (gap_eq_accept k) ?_
  refine settles_bind_pure (settles_require hRight) ?_
  rintro right rest' ⟨rfl, hRightTree⟩
  exact ⟨.node (jointRule 3) [left, .leaf ⟨.operator, op.symbol⟩, right], rest', rfl, rfl,
    ofTree_linked hLeftTree hRightTree hType⟩

theorem logicAtom_of_declines (hNot : Declines (keyword "not") s) :
    logicAtom inner s = atomicCondition inner s :=
  orElse_of_declines (declines_bind hNot)

/-- One rung up, past a joint of which no operator follows, the tree is wrapped. -/
theorem settles_rung_succ {P : SyntaxTree → List Char → Prop} (hk : k ≤ 6)
    (h : Settles g P (rung inner k s)) (hGap : ∀ tree rest, P tree rest → afterGap false rest = t)
    (hNot : k = 3 → Declines (keyword "not") s) (hEnd : Declines (joint k) t) :
    Settles g (fun tree rest => rest = t ∧ ∃ lone rest, tree = .node (jointRule k) [lone] ∧
      P lone rest) (rung inner (k + 1) s) := by
  by_cases hComparison : k = 3
  · subst hComparison
    show Settles g _ (logicAtom inner s)
    rw [logicAtom_of_declines (hNot rfl)]
    exact settles_atomicCondition_lone h hGap hEnd
  · rw [rung_succ hk hComparison]
    exact settles_chain_lone h hGap hEnd

/-- Up the ladder, past joints of which no operator follows, a tree keeps what its wrappers keep. -/
theorem settles_rung_le {P : SyntaxTree → Prop}
    (hWrap : ∀ k tree, P tree → P (.node (jointRule k) [tree])) {i j : Nat} (hij : i ≤ j)
    (hj : j ≤ 7)
    (h : Settles g (fun tree rest => afterGap false rest = t ∧ P tree) (rung inner i s))
    (hNot : i ≤ 3 → Declines (keyword "not") s)
    (hEnd : ∀ k, i ≤ k → k < j → Declines (joint k) t) :
    Settles g (fun tree rest => afterGap false rest = t ∧ P tree) (rung inner j s) := by
  induction hij with
  | refl => exact h
  | @step j hij ih =>
    have hBefore := ih (by omega) fun k hik hkj => hEnd k hik (by omega)
    have hJoint := hEnd j hij (by omega)
    refine (settles_rung_succ (by omega) hBefore (fun _ _ hP => hP.1)
      (fun hAtom => hNot (hAtom ▸ hij)) hJoint).imp Iff.rfl ?_
    rintro _ _ ⟨rfl, tree, rest, rfl, hGap, hTree⟩
    refine ⟨?_, hWrap j tree hTree⟩
    rw [← hGap, afterGap_afterGap]

/-- Up the ladder, past joints of which no operator follows, the same expression is read. -/
theorem reads_rung_le {i j : Nat} (hij : i ≤ j) (hj : j ≤ 7)
    (h : Reads resolver g e ty t (rung inner i s)) (hNot : i ≤ 3 → Declines (keyword "not") s)
    (hEnd : ∀ k, i ≤ k → k < j → Declines (joint k) t) :
    Reads resolver g e ty t (rung inner j s) :=
  settles_rung_le (P := fun tree => Phrase.ofTree resolver tree = .ok (.expr e ty))
    (fun _ _ hTree => ofTree_lone hTree) hij hj h hNot hEnd

/-- One rung up, with the operator of the joint between them. -/
theorem reads_rung_linked {op : BinaryOp} {l r : Expr} {tl tr : Ty} {m a : List Char}
    (hm : m = op.symbol.toList ++ ' ' :: a)
    (hLeft : Reads resolver g l tl m (rung inner (jointOf op) s))
    (hRight : Reads resolver g' r tr t (rung inner (jointOf op) (afterGap false (' ' :: a))))
    (hNot : Declines (keyword "not") s) (hEnd : Declines (joint (jointOf op)) t)
    (hType : Typing.nodeType (.binary op l r) [tl, tr] = .ok ty) :
    Reads resolver (g ∧ g') (.binary op l r) ty t (rung inner (jointOf op + 1) s) := by
  have hOp : joint (jointOf op) m = .accept op.symbol (' ' :: a) := by
    rw [hm]
    exact joint_jointOf op a
  by_cases hComparison : jointOf op = 3
  · rw [hComparison] at hLeft hRight hOp ⊢
    show Reads resolver _ _ _ _ (logicAtom inner s)
    rw [logicAtom_of_declines hNot]
    exact reads_atomicCondition_linked hLeft hOp hRight hType
  · rw [rung_succ (jointOf_le op) hComparison]
    have hNonempty : m ≠ [] := by
      rw [hm]
      exact List.append_ne_nil_of_right_ne_nil _ (List.cons_ne_nil _ _)
    refine (settles_chain_linked hLeft (fun _ _ hP => hP.1) hNonempty hOp hRight
      (fun _ _ hQ => hQ.1) hEnd).imp Iff.rfl ?_
    rintro _ _ ⟨rfl, left, right, _, b, rfl, ⟨-, hLeftTree⟩, hGap, hRightTree⟩
    refine ⟨?_, ofTree_linked hLeftTree hRightTree hType⟩
    rw [← hGap, afterGap_afterGap]

end

end TopicSpec.Grammar
