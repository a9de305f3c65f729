import TopicSpec.Proofs.Grammar.Ladder

/-! # Chains of operators and names

A chain of names with operators between them stands for a tree, which is found without a grammar:
the chain is split at the rightmost of its loosest operators, and so are the parts. -/

namespace TopicSpec
set_option autoImplicit false

/-! ## Chains -/

/-- A word that names a field. -/
abbrev FieldName : Type := { word : String // Scan.IsName word.toList }

structure Blanks where
  chars : List Char
  nonempty : chars ≠ []
  blank : ∀ c ∈ chars, Scan.isGapChar c = true

/-- An operator with the name behind it, and the blanks before each of them. -/
structure Link where
  before : Blanks
  op : BinaryOp
  between : Blanks
  operand : FieldName

namespace Link

/-- The level of the operator: the looser, the higher. -/
def level (l : Link) : Nat := Grammar.jointOf l.op

def isComparison (l : Link) : Prop := l.level = 3

def isLogical (l : Link) : Prop := 3 < l.level

instance (l : Link) : Decidable l.isComparison := inferInstanceAs (Decidable (l.level = 3))

instance (l : Link) : Decidable l.isLogical := inferInstanceAs (Decidable (3 < l.level))

def chars (l : Link) : List Char :=
  l.before.chars ++ (l.op.symbol.toList ++ (l.between.chars ++ l.operand.1.toList))

end Link

structure OperatorChain where
  first : FieldName
  links : List Link

def OperatorChain.text (chain : OperatorChain) : String :=
  String.ofList (chain.first.1.toList ++ chain.links.flatMap Link.chars)

/-- Between any two comparisons there is a logical operator. -/
def ComparesApart (links : List Link) : Prop :=
  ∀ before a between b behind, links = before ++ a :: (between ++ b :: behind) →
    a.isComparison → b.isComparison → ∃ l ∈ between, l.isLogical

/-! ## Splitting -/

/-- The rightmost of the loosest operators, with the links before and behind it. -/
def splitLoosest? : List Link → Option (List Link × Link × List Link)
  | [] => none
  | l :: links =>
    match splitLoosest? links with
    | none => some ([], l, [])
    | some (before, loosest, behind) =>
      if loosest.level < l.level then some ([], l, links)
      else some (l :: before, loosest, behind)

theorem splitLoosest?_eq_none {links : List Link} (h : splitLoosest? links = none) :
    links = [] := by
  cases links with
  | nil => rfl
  | cons l links =>
    unfold splitLoosest? at h
    split at h
    · cases h
    · split at h <;> cases h

theorem links_of_splitLoosest? {links before behind : List Link} {l : Link}
    (h : splitLoosest? links = some (before, l, behind)) : links = before ++ l :: behind := by
  induction links generalizing before with
  | nil => cases h
  | cons first links ih =>
    unfold splitLoosest? at h
    split at h
    case h_1 hNone =>
      obtain rfl := splitLoosest?_eq_none hNone
      cases h
      rfl
    case h_2 hSome =>
      split at h
      · cases h
        rfl
      · cases h
        rw [ih hSome, List.cons_append]

/-- The operator at which a chain is split, told by the operators around it. -/
theorem splitLoosest?_append {before behind : List Link} {l : Link}
    (hBefore : ∀ a ∈ before, a.level ≤ l.level) (hBehind : ∀ a ∈ behind, a.level < l.level) :
    splitLoosest? (before ++ l :: behind) = some (before, l, behind) := by
  induction before with
  | nil =>
    rw [List.nil_append, splitLoosest?]
    cases hSplit : splitLoosest? behind with
    | none => rw [splitLoosest?_eq_none hSplit]
    | some parts =>
      obtain ⟨front, loosest, back⟩ := parts
      have hMem : loosest ∈ behind := by simp [links_of_splitLoosest? hSplit]
      simp [hBehind loosest hMem]
  | cons a before ih =>
    obtain ⟨hFirst, hRest⟩ := List.forall_mem_cons.mp hBefore
    rw [List.cons_append, splitLoosest?, ih hRest]
    simp [Nat.not_lt.mpr hFirst]

/-- A tree of operators with names at its ends. -/
inductive Operation where
  | name (word : String)
  | apply (op : BinaryOp) (left right : Operation)

/-- The tree of a chain: its operators are taken from the loosest to the tightest, and among those
of one level from the right to the left. -/
def Operation.ofChain (first : FieldName) (links : List Link) : Operation :=
  match _hSplit : splitLoosest? links with
  | none => .name first.1
  | some (before, l, behind) => .apply l.op (ofChain first before) (ofChain l.operand behind)
termination_by links.length
decreasing_by
  all_goals
    rw [links_of_splitLoosest? ‹splitLoosest? links = _›, List.length_append, List.length_cons]
    omega

namespace Operation

/-- The syntax tree, with a node for each operator. -/
def toTree : Operation → SyntaxTree
  | name word => .node .ownField [.leaf ⟨.name, word⟩]
  | apply op left right =>
    .node (Grammar.jointRule (Grammar.jointOf op))
      [left.toTree, .leaf ⟨.operator, op.symbol⟩, right.toTree]

def toExpr : Operation → Expr
  | name word => .field .this word
  | apply op left right => .binary op left.toExpr right.toExpr

theorem ofChain_nil (first : FieldName) : ofChain first [] = .name first.1 := by
  rw [ofChain]
  rfl

theorem ofChain_append {first : FieldName} {before behind : List Link} {l : Link}
    (hBefore : ∀ a ∈ before, a.level ≤ l.level) (hBehind : ∀ a ∈ behind, a.level < l.level) :
    ofChain first (before ++ l :: behind) =
      .apply l.op (ofChain first before) (ofChain l.operand behind) := by
  rw [ofChain]
  split
  next hNone =>
    rw [splitLoosest?_append hBefore hBehind] at hNone
    cases hNone
  next hSome =>
    rw [splitLoosest?_append hBefore hBehind] at hSome
    cases hSome
    rfl

theorem toTree_eq_node (o : Operation) : ∃ rule children, o.toTree = .node rule children := by
  cases o <;> exact ⟨_, _, rfl⟩

end Operation

namespace SyntaxTree

mutual
/-- Puts a node in the place of its parent if it is the only child. -/
def collapse : SyntaxTree → SyntaxTree
  | leaf token => leaf token
  | node rule children =>
    match collapseAll children with
    | [node rule children] => node rule children
    | children => node rule children

def collapseAll : List SyntaxTree → List SyntaxTree
  | [] => []
  | tree :: trees => collapse tree :: collapseAll trees
end

theorem collapse_lone {tree : SyntaxTree} {o : Operation} (rule : Rule)
    (h : tree.collapse = o.toTree) : (node rule [tree]).collapse = o.toTree := by
  obtain ⟨_, _, hNode⟩ := o.toTree_eq_node
  rw [collapse, collapseAll, collapseAll, h, hNode]

theorem collapse_linked (rule : Rule) (left right : SyntaxTree) (token : Token) :
    (node rule [left, leaf token, right]).collapse =
      node rule [left.collapse, leaf token, right.collapse] := by
  rw [collapse]
  simp only [collapseAll, collapse]
  cases left.collapse <;> rfl

end SyntaxTree

/-! ## Comparisons -/

/-- There is a comparison without a logical operator behind it. -/
def HasOpenComparison (links : List Link) : Prop :=
  ∃ before l behind, links = before ++ l :: behind ∧ l.isComparison ∧ ∀ a ∈ behind, ¬a.isLogical

section
variable {taken behind : List Link} {l : Link}

theorem comparesApart_nil : ComparesApart [] := by
  intro before a between b behind h
  cases before <;> cases h

theorem comparesApart_of_one (hTaken : ∀ a ∈ taken, ¬a.isComparison)
    (hBehind : ∀ a ∈ behind, ¬a.isComparison) : ComparesApart (taken ++ l :: behind) := by
  intro before a between b rest hLinks ha hb
  have hCount := congrArg (List.countP fun l : Link => l.level == 3) hLinks
  have hNone : taken.countP (fun l : Link => l.level == 3) = 0 :=
    List.countP_eq_zero.mpr fun a hMem => by simpa [Link.isComparison] using hTaken a hMem
  have hNone' : behind.countP (fun l : Link => l.level == 3) = 0 :=
    List.countP_eq_zero.mpr fun a hMem => by simpa [Link.isComparison] using hBehind a hMem
  have ha' : (a.level == 3) = true := beq_iff_eq.mpr ha
  have hb' : (b.level == 3) = true := beq_iff_eq.mpr hb
  simp only [List.countP_append, List.countP_cons, hNone, hNone', ha', hb', if_true] at hCount
  split at hCount <;> omega

theorem comparesApart_of_logical (hTaken : ComparesApart taken) (hBehind : ComparesApart behind)
    (h : l.isLogical) : ComparesApart (taken ++ l :: behind) := by
  intro before a between b rest hLinks ha hb
  have hDiffer {c : Link} (hc : c.isComparison) : c ≠ l := by
    rintro rfl
    exact absurd hc (Nat.ne_of_gt h)
  -- The logical operator stands before both comparisons, between them or behind both.
  rcases List.append_eq_append_iff.mp hLinks with ⟨front, rfl, hRest⟩ | ⟨front, rfl, hRest⟩
  · cases front with
    | nil => exact absurd (List.cons.inj hRest).1.symm (hDiffer ha)
    | cons c front =>
      obtain ⟨-, hRest⟩ := List.cons.inj hRest
      exact hBehind front a between b rest hRest ha hb
  · cases front with
    | nil => exact absurd (List.cons.inj hRest).1 (hDiffer ha)
    | cons c front =>
      obtain ⟨rfl, hTail⟩ := List.cons.inj hRest
      rcases List.append_eq_append_iff.mp hTail with ⟨middle, rfl, hEnd⟩ | ⟨middle, rfl, hEnd⟩
      · cases middle with
        | nil => exact absurd (List.cons.inj hEnd).1 (hDiffer hb)
        | cons c middle =>
          obtain ⟨rfl, -⟩ := List.cons.inj hEnd
          exact hTaken before a between b middle rfl ha hb
      · cases middle with
        | nil => exact absurd (List.cons.inj hEnd).1.symm (hDiffer hb)
        | cons c middle =>
          obtain ⟨rfl, -⟩ := List.cons.inj hEnd
          exact ⟨l, by simp, h⟩

theorem HasOpenComparison.append (h : HasOpenComparison behind) :
    HasOpenComparison (taken ++ l :: behind) := by
  obtain ⟨before, c, rest, rfl, hComparison, hRest⟩ := h
  exact ⟨taken ++ l :: before, c, rest, by simp, hComparison, hRest⟩

theorem HasOpenComparison.not_comparesApart (h : HasOpenComparison taken) (hl : l.isComparison) :
    ¬ComparesApart (taken ++ l :: behind) := by
  obtain ⟨before, c, between, rfl, hComparison, hBetween⟩ := h
  intro hApart
  obtain ⟨a, hMem, hLogical⟩ := hApart before c between l behind (by simp) hComparison hl
  exact hBetween a hMem hLogical

end

end TopicSpec
