import TopicSpec.Proofs.Expr.Occurrence
import TopicSpec.Proofs.Grammar.Yield
import TopicSpec.Proofs.Literal.Denotation

/-! # Literals and the lexemes of a tree

The lexemes of a part of a tree are lexemes of the tree. An expression that is put together of the
parts of a node has the literals of these parts. -/

namespace TopicSpec
set_option autoImplicit false

namespace SyntaxTree

variable {children : List SyntaxTree} {child : SyntaxTree}

theorem leaves_subset_leavesAll (h : child ∈ children) : child.leaves ⊆ leavesAll children := by
  induction children with
  | nil => cases h
  | cons first children ih =>
    rcases List.mem_cons.mp h with rfl | hMore
    · exact List.subset_append_left _ _
    · exact List.Subset.trans (ih hMore) (List.subset_append_right _ _)

end SyntaxTree

namespace Expr

variable {tokens more : List Token} {e : Expr} {l : Literal}

/-- Every literal that occurs in the expression is that of a lexeme. -/
def LiteralsAmong (tokens : List Token) (e : Expr) : Prop :=
  ∀ scope l, e.Within scope (.literal l) → l.IsAmong tokens

theorem LiteralsAmong.mono (h : e.LiteralsAmong tokens) (hTokens : tokens ⊆ more) :
    e.LiteralsAmong more :=
  fun scope l hWithin => (h scope l hWithin).mono hTokens

theorem literalsAmong_literal (h : l.IsAmong tokens) : (literal l).LiteralsAmong tokens := by
  intro scope found hWithin
  rcases within_iff.mp hWithin with ⟨-, hSame⟩ | ⟨_, hPart, -⟩
  · obtain rfl := Expr.literal.inj hSame
    exact h
  · cases hPart

theorem literalsAmong_of_parts (hOther : ∀ l, e ≠ .literal l)
    (h : ∀ part ∈ e.parts, part.2.LiteralsAmong tokens) : e.LiteralsAmong tokens := by
  intro scope l hWithin
  rcases within_iff.mp hWithin with ⟨-, hSame⟩ | ⟨part, hPart, inner, -, hInner⟩
  · exact absurd hSame.symm (hOther l)
  · exact h part hPart inner l hInner

/-- Each part of the expression comes from a child of the node. -/
theorem literalsAmong_of_children {rule : Rule} {children : List SyntaxTree}
    (hOther : ∀ l, e ≠ .literal l)
    (h : ∀ part ∈ e.parts, ∃ child ∈ children, part.2.LiteralsAmong child.leaves) :
    e.LiteralsAmong (SyntaxTree.node rule children).leaves := by
  refine literalsAmong_of_parts hOther fun part hPart => ?_
  obtain ⟨child, hChild, hLiterals⟩ := h part hPart
  exact hLiterals.mono (SyntaxTree.leaves_subset_leavesAll hChild)

end Expr

end TopicSpec
