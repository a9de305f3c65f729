import TopicSpec.Proofs.Grammar.Embedding
import TopicSpec.Proofs.Grammar.Rereading
import TopicSpec.Proofs.Phrase.Unchecked

/-! # Redundant parentheses

A condition in parentheses is an operand, and is carried up the ladder to a condition again, past
joints of which no operator follows. Its tree gets a wrapper on every rung, and says the same. -/

namespace TopicSpec
open Grammar Scan
set_option autoImplicit false

/-! ## One parenthesis more at the end -/

/-- As many closing parentheses. -/
abbrev closings (j : Nat) : List Char := List.replicate j ')'

/-- On the line behind a text that they share, or from where nothing else is left, the second text
has one parenthesis more than the first. -/
inductive Deeper : List Char → List Char → Prop where
  | behind (s : List Char) (j : Nat) :
    Deeper (s ++ '\n' :: closings j) (s ++ '\n' :: closings (j + 1))
  | next (j : Nat) : Deeper (closings j) (closings (j + 1))

namespace Deeper

variable {s s' : List Char} {j : Nat}

theorem afterGap_closings (j : Nat) : afterGap false (closings j) = closings j := by
  cases j <;> rfl

theorem afterGap_line (comment : Bool) (j : Nat) :
    afterGap comment ('\n' :: closings j) = closings j := by
  cases comment <;> exact afterGap_closings j

theorem front (h : Deeper s s') : Scan.Front Deeper (some ')') s s' := by
  have hLine : ∀ j, IsBare ('\n' :: closings j) := by
    rintro j c hc
    obtain rfl : '\n' = c := by simpa using hc
    decide
  cases h with
  | behind s j =>
    exact .append (fun t => .behind t j) (hLine j) (hLine (j + 1)) (by simp) (by simp) s
  | next j =>
    cases j with
    | zero => exact .closed rfl
    | succ j => exact .plain (by decide) (.next j)

theorem gap (h : Deeper s s') : Deeper (afterGap false s) (afterGap false s') := by
  cases h with
  | behind s j =>
    rcases afterGap_append_cases false s with ⟨t, -, hKept⟩ | ⟨comment, hOver⟩
    · rw [hKept, hKept]
      exact .behind t j
    · rw [hOver, hOver, afterGap_line, afterGap_line]
      exact .next j
  | next j =>
    rw [afterGap_closings, afterGap_closings]
    exact .next j

theorem eq_closings_iff (h : Deeper s s') : s = closings j ↔ s' = closings (j + 1) := by
  have hLine : ∀ {t u : List Char} {i : Nat}, t ++ '\n' :: u ≠ closings i := fun hEq => by
    have hMem : '\n' ∈ closings _ := hEq ▸ List.mem_append_right _ List.mem_cons_self
    cases (List.mem_replicate.mp hMem).2
  cases h with
  | behind s i => exact iff_of_false hLine hLine
  | next i => simp

end Deeper

/-- The texts from the beginning of a condition on, where parentheses are closed behind it. -/
def Likeness.deeper : Likeness where
  like := Deeper
  closer := some ')'
  closes hc := .inr (Option.some.inj hc).symm
  front := Deeper.front
  gap := Deeper.gap

namespace Grammar

variable {inner : Inner} {tree : SyntaxTree} {s left : List Char} {j n n' : Nat}

/-- A tree has been read and, behind a gap, the rest of the text is what is given. -/
def ReadsUpTo (left : List Char) (tree : SyntaxTree) (o : Outcome SyntaxTree) : Prop :=
  ∃ rest, o = .accept tree rest ∧ afterGap false rest = left

/-- A condition is read up to the parentheses, however many there are. -/
theorem readsUpTo_deeper (hn : (afterGap false (s ++ '\n' :: closings j)).length < n)
    (hn' : (afterGap false (s ++ '\n' :: closings (j + 1))).length < n') :
    ReadsUpTo (closings j) tree ((nested n).condition (afterGap false (s ++ '\n' :: closings j))) ↔
      ReadsUpTo (closings (j + 1)) tree
        ((nested n').condition (afterGap false (s ++ '\n' :: closings (j + 1)))) := by
  have hLike : Deeper (afterGap false (s ++ '\n' :: closings j))
      (afterGap false (s ++ '\n' :: closings (j + 1))) := (Deeper.behind s j).gap
  have hRun := (within_nested Likeness.deeper n n').condition n (Nat.le_refl n) n' (Nat.le_refl n')
    _ _ ⟨hLike, hn, hn'⟩
  exact hRun.accepts_iff (fun r r' hRest => (Deeper.gap hRest.like).eq_closings_iff)
    (List.cons_ne_nil _ _)

/-- A whole condition is read up to any number of parentheses on a line behind it. -/
theorem readsUpTo_closings
    (h : topLevelCondition s = .accept (.node .topLevelCondition [tree]) [])
    (hn : (afterGap false (s ++ '\n' :: closings j)).length < n) :
    ReadsUpTo (closings j) tree
      ((nested n).condition (afterGap false (s ++ '\n' :: closings j))) := by
  have hOne : ReadsUpTo (closings 1) tree
      (anyCondition (afterGap false (s ++ '\n' :: closings 1))) :=
    (anyCondition_enclosed (.inr rfl) s tree).mp (topLevelCondition_eq_accept_iff.mp h)
  induction j generalizing n with
  | zero => exact (readsUpTo_deeper hn (Nat.lt_succ_self _)).mpr hOne
  | succ j ih => exact (readsUpTo_deeper (Nat.lt_succ_self _) hn).mp (ih (Nat.lt_succ_self _))

/-! ## Up the ladder -/

/-- The tree with the wrappers of the rungs below one. -/
def lifted (tree : SyntaxTree) : Nat → SyntaxTree
  | 0 => tree
  | k + 1 => .node (jointRule k) [lifted tree k]

theorem readsUpTo_iff_settles {o : Outcome SyntaxTree} :
    ReadsUpTo left tree o ↔
      Settles True (fun t rest => t = tree ∧ afterGap false rest = left) o := by
  cases o with
  | accept t rest => simp [ReadsUpTo, Settles, and_comm]
  | reject committed expected rest => cases committed <;> simp [ReadsUpTo, Settles]

theorem readsUpTo_rung {k : Nat} (hk : k ≤ 7) (h : ReadsUpTo left tree (operand inner s))
    (hLeft : afterGap false left = left) (hNot : Declines (keyword "not") s)
    (hEnd : ∀ i ≤ 6, Declines (joint i) left) :
    ReadsUpTo left (lifted tree k) (rung inner k s) := by
  induction k with
  | zero => exact h
  | succ k ih =>
    have hBelow := readsUpTo_iff_settles.mp (ih (Nat.le_of_succ_le hk))
    refine readsUpTo_iff_settles.mpr ?_
    refine (settles_rung_succ (Nat.le_of_succ_le_succ hk) hBelow (fun _ _ hP => hP.2)
      (fun _ => hNot) (hEnd k (Nat.le_of_succ_le_succ hk))).imp Iff.rfl ?_
    rintro _ _ ⟨rfl, _, _, rfl, rfl, -⟩
    exact ⟨rfl, hLeft⟩

/-- A condition in parentheses is a condition. -/
theorem readsUpTo_parenthesized (hLeft : afterGap false left = left) (hEnds : Ends left)
    (h : ReadsUpTo (')' :: left) tree (inner.condition (afterGap false s))) :
    ReadsUpTo left (lifted tree 7) (condition inner ('(' :: s)) := by
  obtain ⟨rest, hCondition, hRest⟩ := h
  have hParenthesized : parenthesized inner ('(' :: s) = .accept tree left := by
    refine bind_eq_accept_iff.mpr ⟨(), s, rfl, ?_⟩
    refine bind_eq_accept_iff.mpr ⟨(), _, gap_eq_accept s, ?_⟩
    exact bind_eq_accept_iff.mpr ⟨tree, rest, commit_eq_accept_iff.mpr hCondition,
      close_eq_accept tree hRest⟩
  have hOperand : ReadsUpTo left tree (operand inner ('(' :: s)) := by
    obtain ⟨more, hOperand⟩ : ∃ more, operand inner ('(' :: s) =
        expecting .value (firstOf (parenthesized inner) more) ('(' :: s) := operand_of_parenthesis s
    rw [hOperand]
    refine readsUpTo_iff_settles.mpr (settles_expecting (settles_firstOf ?_))
    exact settles_of_accept hParenthesized trivial ⟨rfl, hLeft⟩
  have hOpens : Opens ('(' :: s) := opens_of_head (by decide)
  rw [condition_of_declines hOpens.quantifier]
  refine readsUpTo_rung (Nat.le_refl 7) hOperand hLeft hOpens.negation fun i hi => ?_
  exact hLeft ▸ hEnds.joint_declines hi

/-- The tree of a condition in so many pairs of parentheses. -/
def raised (tree : SyntaxTree) : Nat → SyntaxTree
  | 0 => tree
  | k + 1 => lifted (raised tree k) 7

/-- So many parentheses opened before a text. -/
abbrev openings (k : Nat) (s : List Char) : List Char := List.replicate k '(' ++ s

/-- A whole condition behind opening parentheses is read up to the closing ones that are too
many. -/
theorem readsUpTo_openings {k : Nat}
    (h : topLevelCondition s = .accept (.node .topLevelCondition [tree]) [])
    (hn : (afterGap false (openings k (s ++ '\n' :: closings (k + j)))).length < n) :
    ReadsUpTo (closings j) (raised tree k)
      ((nested n).condition (afterGap false (openings k (s ++ '\n' :: closings (k + j))))) := by
  induction k generalizing j n with
  | zero =>
    rw [Nat.zero_add] at hn ⊢
    exact readsUpTo_closings h hn
  | succ k ih =>
    have hText : openings (k + 1) (s ++ '\n' :: closings (k + 1 + j)) =
        '(' :: openings k (s ++ '\n' :: closings (k + (j + 1))) := by
      rw [Nat.succ_add_eq_add_succ]
      rfl
    rw [hText] at hn ⊢
    cases n with
    | zero => exact absurd hn (Nat.not_lt_zero _)
    | succ m =>
      have hShorter := length_afterGap_le false (openings k (s ++ '\n' :: closings (k + (j + 1))))
      have hInside := ih (Nat.lt_of_le_of_lt hShorter (Nat.lt_of_succ_lt_succ hn))
      have hEnds : Ends (closings j) := by
        cases j with
        | zero => exact .inl rfl
        | succ j => exact ends_mark (by decide)
      exact readsUpTo_parenthesized (Deeper.afterGap_closings j) hEnds hInside

end Grammar

/-! ## What is said in parentheses -/

namespace Phrase

variable {resolver : Option Resolver} {tree : SyntaxTree}

/-- Whatever a tree says is an expression. -/
def SaysExpression (resolver : Option Resolver) (tree : SyntaxTree) : Prop :=
  ∀ phrase, ofTree resolver tree = .ok phrase → ∃ e ty, phrase = .expr e ty

theorem ofTree_wrapped (h : SaysExpression resolver tree) (k : Nat) :
    ofTree resolver (.node (jointRule k) [tree]) = ofTree resolver tree := by
  cases hTree : ofTree resolver tree with
  | ok phrase =>
    obtain ⟨e, ty, rfl⟩ := h phrase hTree
    exact ofTree_lone hTree
  | error e =>
    rw [ofTree, ofTrees, hTree]
    rfl

theorem ofTree_lifted (h : SaysExpression resolver tree) (k : Nat) :
    ofTree resolver (lifted tree k) = ofTree resolver tree := by
  induction k with
  | zero => rfl
  | succ k ih =>
    have hLifted : SaysExpression resolver (lifted tree k) := by
      rw [SaysExpression, ih]
      exact h
    rw [lifted, ofTree_wrapped hLifted, ih]

theorem ofTree_raised (h : SaysExpression resolver tree) (k : Nat) :
    ofTree resolver (raised tree k) = ofTree resolver tree := by
  induction k with
  | zero => rfl
  | succ k ih =>
    have hRaised : SaysExpression resolver (raised tree k) := by
      rw [SaysExpression, ih]
      exact h
    rw [raised, ofTree_lifted hRaised, ih]

end Phrase

/-- The text of a condition in so many pairs of parentheses, which are closed on a line of their
own. -/
def parenthesize (k : Nat) (text : String) : String :=
  String.ofList (openings k (text.toList ++ '\n' :: closings k))

theorem readTree_parenthesize {text : String} {condition : SyntaxTree}
    (h : readTree .predicate text = .ok (.node .topLevelCondition [condition])) (k : Nat) :
    readTree .predicate (parenthesize k text) =
      .ok (.node .topLevelCondition [raised condition k]) := by
  have hWhole : topLevelCondition text.toList = .accept (.node .topLevelCondition [condition]) [] :=
    readTree_eq_ok_iff.mp h
  refine readTree_eq_ok_iff.mpr (topLevelCondition_eq_accept_iff.mpr ?_)
  rw [parenthesize, String.toList_ofList]
  exact readsUpTo_openings (j := 0) hWhole (Nat.lt_succ_self _)

/-- Redundant parentheses are transparent: a condition in any number of parentheses is read as the
condition that stands alone, or is refused for the same reason. -/
theorem parentheses_are_transparent {text : String} {tree : SyntaxTree}
    (h : SyntaxTree.ofText .predicate text = .ok tree) (k : Nat) (resolver : Option Resolver) :
    Expr.ofText resolver (parenthesize k text) = Expr.ofText resolver text := by
  have hTree : readTree .predicate text = .ok tree := by rw [readTree, h, mapError_ok]
  cases derives_of_readTree hTree with
  | @topLevelCondition condition _ _ _ _ _ hCondition _ =>
    have hSays : Phrase.SaysExpression resolver condition := fun phrase hPhrase =>
      Phrase.eq_expr_of_sense (Phrase.sense_of_derives hCondition hPhrase)
    rw [Expr.ofText, Expr.ofText, readTree_parenthesize hTree k, hTree, ok_bind, ok_bind]
    simp only [SyntaxTree.toCondition, Phrase.ofTree, Phrase.ofTrees, Phrase.ofTree_raised hSays]

theorem commented_condition_in_parentheses :
    (SyntaxTree.ofText .predicate "forall i in xs: not xs[@i] > 1 # all").isOk = true ∧
      ∀ resolver, Expr.ofText resolver "((forall i in xs: not xs[@i] > 1 # all\n))" =
        Expr.ofText resolver "forall i in xs: not xs[@i] > 1 # all" := by
  have hRead : (SyntaxTree.ofText .predicate
      "forall i in xs: not xs[@i] > 1 # all").isOk = true := by decide +kernel
  have hText : parenthesize 2 "forall i in xs: not xs[@i] > 1 # all" =
      "((forall i in xs: not xs[@i] > 1 # all\n))" := by decide +kernel
  refine ⟨hRead, fun resolver => ?_⟩
  cases hTree : SyntaxTree.ofText .predicate "forall i in xs: not xs[@i] > 1 # all" with
  | error e => simp [hTree, Except.isOk, Except.toBool] at hRead
  | ok tree => exact hText ▸ parentheses_are_transparent hTree 2 resolver

end TopicSpec
