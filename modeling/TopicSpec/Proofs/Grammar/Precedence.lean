import TopicSpec.Proofs.Grammar.ChainReading
import TopicSpec.Proofs.Grammar.Rereading
import TopicSpec.Proofs.Phrase.Unchecked

/-! # Precedence and associativity

Every chain of names and operators is a condition, unless a comparison follows another one without
a logical operator between them. Its operators associate to the left, and the levels are those of
the joints. -/

namespace TopicSpec
open Scan
set_option autoImplicit false

def OperatorChain.operation (chain : OperatorChain) : Operation :=
  .ofChain chain.first chain.links

namespace Grammar

theorem gap_behind_ne_nil (l : Link) (more : List Link) :
    afterGap false ((l :: more).flatMap Link.chars) ≠ [] := by
  rw [afterGap_link, Link.behindGap]
  cases l.op <;> exact List.cons_ne_nil _ _

/-- The highest rung leaves nothing of a chain, or a comparison that comes too late. -/
theorem topLevelCondition_chain (chain : OperatorChain) :
    ∃ tree rest taken left, chain.links = taken ++ left ∧
      topLevelCondition chain.text.toList =
        .accept (.node .topLevelCondition [tree]) (afterGap false rest) ∧
      HasRead 7 7 chain.first tree rest taken left := by
  have hWord : StopsWord (chain.links.flatMap Link.chars) := stops_links rfl _
  obtain ⟨tree, rest, taken, left, hLinks, hRung, hRead⟩ :=
    reads_rung (nested chain.text.toList.length) 7 (Nat.le_refl 7) chain.first chain.links
  refine ⟨tree, rest, taken, left, hLinks, ?_, hRead⟩
  rw [← condition_of_declines (opens_name chain.first.2 hWord).quantifier] at hRung
  have hText : chain.text.toList = chain.first.1.toList ++ chain.links.flatMap Link.chars := by
    rw [OperatorChain.text, String.toList_ofList]
  rw [hText] at hRung ⊢
  refine bind_eq_accept_iff.mpr ⟨(), _, gap_eq_accept _, ?_⟩
  rw [gap_name chain.first.2]
  refine bind_eq_accept_iff.mpr ⟨tree, rest, hRung, ?_⟩
  exact bind_eq_accept_iff.mpr ⟨(), _, gap_eq_accept rest, rfl⟩

/-- What is left of a chain, if anything is. -/
theorem left_cases {first : FieldName} {tree : SyntaxTree} {rest : List Char}
    {taken left : List Link} (h : HasRead 7 7 first tree rest taken left) :
    left = [] ∧ afterGap false rest = [] ∨
      afterGap false rest ≠ [] ∧ ¬ComparesApart (taken ++ left) := by
  rw [h.rest]
  cases left with
  | nil => exact .inl ⟨rfl, rfl⟩
  | cons l more =>
    have hLevel : l.level ≤ 6 := jointOf_le l.op
    obtain ⟨hComparison, hOpen⟩ := (h.stops l more rfl).resolve_left (by omega)
    exact .inr ⟨gap_behind_ne_nil l more, hOpen.not_comparesApart hComparison⟩

/-- The expression of a whole text is that of its condition. -/
theorem expr_of_toCondition {resolver : Option Resolver} {tree : SyntaxTree} {e condition : Expr}
    (hTree : ∀ phrase, Phrase.ofTree resolver tree = .ok phrase →
      ∃ ty, phrase = .expr condition ty)
    (h : (SyntaxTree.node .topLevelCondition [tree]).toCondition resolver = .ok e) :
    e = condition := by
  obtain ⟨phrase, hPhrase, h⟩ := ok_of_bind h
  obtain ⟨inner, hInner, hNode⟩ := Phrase.children_of_one hPhrase
  obtain ⟨ty, rfl⟩ := hTree inner hInner
  obtain ⟨pair, hPair, hNode⟩ := ok_of_bind hNode
  obtain rfl := Except.ok.inj hPair
  obtain ⟨_, -, hNode⟩ := ok_of_bind hNode
  obtain ⟨_, -, hNode⟩ := ok_of_bind hNode
  obtain rfl := Except.ok.inj hNode
  exact (Except.ok.inj h).symm

end Grammar

/-- A chain of operators is a condition exactly if its comparisons are apart. Its tree, apart from
the nodes with one child, is the one that is found by splitting the chain at the rightmost of the
loosest operators, and so is the expression, if there is one. -/
theorem ofText_operatorChain (chain : OperatorChain) :
    ((∃ tree, SyntaxTree.ofText .predicate chain.text = .ok tree) ↔
        ComparesApart chain.links) ∧
      (∀ tree, SyntaxTree.ofText .predicate chain.text = .ok tree →
        tree.collapse = chain.operation.toTree) ∧
      ∀ resolver e, Expr.ofText resolver chain.text = .ok e → e = chain.operation.toExpr := by
  obtain ⟨tree, rest, taken, left, hLinks, hScan, hRead⟩ := Grammar.topLevelCondition_chain chain
  have hAccept : ∀ found, Grammar.topLevelCondition chain.text.toList = .accept found [] ↔
      .node .topLevelCondition [tree] = found ∧ afterGap false rest = [] := by
    intro found
    rw [hScan, Outcome.accept.injEq]
  have hTree : ∀ found, SyntaxTree.ofText .predicate chain.text = .ok found ↔
      .node .topLevelCondition [tree] = found ∧ afterGap false rest = [] :=
    fun found => Scan.whole_eq_ok_iff.trans (hAccept found)
  have hRead' : ∀ found, readTree .predicate chain.text = .ok found ↔
      .node .topLevelCondition [tree] = found ∧ afterGap false rest = [] :=
    fun found => readTree_eq_ok_iff.trans (hAccept found)
  rcases Grammar.left_cases hRead with ⟨rfl, hEmpty⟩ | ⟨hRest, hLate⟩
  · obtain rfl : taken = chain.links := by rw [hLinks, List.append_nil]
    refine ⟨⟨fun _ => hRead.apart, fun _ => ⟨_, (hTree _).mpr ⟨rfl, hEmpty⟩⟩⟩, ?_, ?_⟩
    · intro found hFound
      obtain ⟨rfl, -⟩ := (hTree found).mp hFound
      exact SyntaxTree.collapse_lone _ hRead.collapse
    · intro resolver e hExpr
      obtain ⟨found, hFound, hCondition⟩ := ok_of_bind hExpr
      obtain ⟨rfl, -⟩ := (hRead' found).mp hFound
      exact Grammar.expr_of_toCondition (hRead.reduces resolver) hCondition
  · rw [← hLinks] at hLate
    refine ⟨⟨?_, fun hApart => absurd hApart hLate⟩, ?_, ?_⟩
    · rintro ⟨found, hFound⟩
      exact absurd ((hTree found).mp hFound).2 hRest
    · intro found hFound
      exact absurd ((hTree found).mp hFound).2 hRest
    · intro resolver e hExpr
      obtain ⟨found, hFound, -⟩ := ok_of_bind hExpr
      exact absurd ((hRead' found).mp hFound).2 hRest

def Blanks.one : Blanks := ⟨[' '], by decide, List.all_eq_true.mp rfl⟩

def FieldName.ofWord (word : String) (h : name word.toList = .accept word.toList []) : FieldName :=
  ⟨word, (name_eq_accept_iff.mp h).2.1⟩

/-- Names that look like operators or begin with them. -/
def OperatorChain.lookalike : OperatorChain where
  first := .ofWord "order" rfl
  links :=
    [⟨.one, .lt, .one, .ofWord "inner" rfl⟩, ⟨.one, .sub, .one, .ofWord "nothing" rfl⟩,
     ⟨.one, .sub, .one, .ofWord "PIN" rfl⟩, ⟨.one, .iff, .one, .ofWord "iff" rfl⟩,
     ⟨.one, .mem, .one, .ofWord "implies" rfl⟩]

theorem operation_lookalike : OperatorChain.lookalike.operation =
    .apply .iff
      (.apply .lt (.name "order")
        (.apply .sub (.apply .sub (.name "inner") (.name "nothing")) (.name "PIN")))
      (.apply .mem (.name "iff") (.name "implies")) := by
  simp [OperatorChain.operation, OperatorChain.lookalike, Operation.ofChain, splitLoosest?,
    Link.level, Grammar.jointOf, FieldName.ofWord]

theorem lookalike_is_read : ∃ tree,
    SyntaxTree.ofText .predicate "order < inner - nothing - PIN iff iff in implies" = .ok tree ∧
      tree.collapse = (Operation.apply .iff
        (.apply .lt (.name "order")
          (.apply .sub (.apply .sub (.name "inner") (.name "nothing")) (.name "PIN")))
        (.apply .mem (.name "iff") (.name "implies"))).toTree := by
  have hText : OperatorChain.lookalike.text =
      "order < inner - nothing - PIN iff iff in implies" := by rfl
  obtain ⟨hAccept, hTree, -⟩ := ofText_operatorChain .lookalike
  have hApart : ComparesApart OperatorChain.lookalike.links := by
    show ComparesApart ([_, _, _] ++ _ :: [_])
    refine comparesApart_of_logical ?_ ?_ (by decide)
    · show ComparesApart ([] ++ _ :: [_, _])
      exact comparesApart_of_one nofun (by decide)
    · show ComparesApart ([] ++ _ :: [])
      exact comparesApart_of_one nofun nofun
  obtain ⟨tree, hRead⟩ := hAccept.mpr hApart
  rw [hText] at hRead hTree
  exact ⟨tree, hRead, (hTree tree hRead).trans (congrArg Operation.toTree operation_lookalike)⟩

end TopicSpec
