import TopicSpec.Proofs.Grammar.OperandReading
import TopicSpec.Proofs.Grammar.OperatorChain

/-! # Reading chains of operators

Each rung reads a chain as far as its operators are tighter than the rung, and no second comparison
follows a first one. What it reads is the tree of the part that it has read. -/

namespace TopicSpec.Grammar
open Scan
set_option autoImplicit false

/-! ## The text of a chain -/

theorem head_blank (b : Blanks) : ∃ c more, b.chars = c :: more ∧ isGapChar c = true := by
  obtain ⟨chars, hNonempty, hBlank⟩ := b
  cases chars with
  | nil => exact absurd rfl hNonempty
  | cons c more => exact ⟨c, more, rfl, hBlank c List.mem_cons_self⟩

theorem afterGap_blanks (b : Blanks) (s : List Char) :
    afterGap false (b.chars ++ s) = afterGap false s := by
  obtain ⟨chars, hNonempty, hBlank⟩ := b
  show afterGap false (chars ++ s) = _
  clear hNonempty
  induction chars with
  | nil => rfl
  | cons c more ih =>
    obtain ⟨hFirst, hMore⟩ := List.forall_mem_cons.mp hBlank
    have hSkip : afterGap false (c :: (more ++ s)) = afterGap false (more ++ s) := by
      simp [afterGap, hFirst]
    exact hSkip.trans (ih hMore)

theorem eq_of_isGapChar {c : Char} (h : isGapChar c = true) : c ∈ [' ', '\t', '\r', '\n'] := by
  simpa [isGapChar, or_assoc] using h

theorem joint_symbol {c : Char} (hc : isGapChar c = true) (op : BinaryOp) (rest : List Char) :
    joint (jointOf op) (op.symbol.toList ++ c :: rest) = .accept op.symbol (c :: rest) := by
  have hMem := eq_of_isGapChar hc
  simp only [List.mem_cons, List.not_mem_nil, or_false] at hMem
  rcases hMem with rfl | rfl | rfl | rfl <;> cases op <;> rfl

theorem joint_declines {c : Char} (hc : isGapChar c = true) {op : BinaryOp} {k : Nat} (hk : k ≤ 6)
    (hOther : jointOf op ≠ k) (rest : List Char) :
    Declines (joint k) (op.symbol.toList ++ c :: rest) := by
  have hMem := eq_of_isGapChar hc
  simp only [List.mem_cons, List.not_mem_nil, or_false] at hMem
  rcases hMem with rfl | rfl | rfl | rfl <;> cases op <;> interval_cases k <;>
    first | exact absurd rfl hOther | exact ⟨_, _, rfl⟩

/-- What follows the gap before a link. -/
def Link.behindGap (l : Link) (more : List Link) : List Char :=
  l.op.symbol.toList ++ (l.between.chars ++ (l.operand.1.toList ++ more.flatMap Link.chars))

theorem afterGap_link (l : Link) (more : List Link) :
    afterGap false ((l :: more).flatMap Link.chars) = Link.behindGap l more := by
  have hText : (l :: more).flatMap Link.chars = l.before.chars ++ Link.behindGap l more := by
    simp [Link.chars, Link.behindGap]
  have hSymbol : afterGap false (Link.behindGap l more) = Link.behindGap l more := by
    rw [Link.behindGap]
    cases l.op <;> rfl
  rw [hText, afterGap_blanks, hSymbol]

/-- Nothing follows that a name goes on with. -/
theorem stops_links {accepts : Char → Bool} (h : [' ', '\t', '\r', '\n'].any accepts = false)
    (links : List Link) : Stops accepts (links.flatMap Link.chars) := by
  cases links with
  | nil => exact stops_nil _
  | cons l links =>
    obtain ⟨c, more, hHead, hBlank⟩ := head_blank l.before
    have hRejects := List.any_eq_false.mp h c (eq_of_isGapChar hBlank)
    rw [List.flatMap_cons, Link.chars, hHead]
    exact stops_cons_iff.mpr (Bool.eq_false_iff.mpr hRejects)

theorem links_ne_cons {d : Char} (h : d ∉ [' ', '\t', '\r', '\n']) (links : List Link)
    (t : List Char) : links.flatMap Link.chars ≠ d :: t := by
  intro hText
  have hStops : Stops (· == d) (links.flatMap Link.chars) := by
    refine stops_links (List.any_eq_false.mpr fun c hMem => ?_) links
    rintro hSame
    exact h (eq_of_beq hSame ▸ hMem)
  rw [hText, stops_cons_iff, beq_self_eq_true] at hStops
  cases hStops

/-! ## What a rung reads -/

/-- The tree of the links that have been taken up, all of them below one level, and the text of
those that are left. The next operator is not below another level, or is a comparison that comes
too late. -/
structure HasRead (below level : Nat) (first : FieldName) (tree : SyntaxTree) (rest : List Char)
    (taken left : List Link) : Prop where
  tighter : ∀ l ∈ taken, l.level < below
  apart : ComparesApart taken
  collapse : tree.collapse = (Operation.ofChain first taken).toTree
  reduces : ∀ resolver phrase, Phrase.ofTree resolver tree = .ok phrase →
    ∃ ty, phrase = .expr (Operation.ofChain first taken).toExpr ty
  rest : afterGap false rest = afterGap false (left.flatMap Link.chars)
  stops : ∀ l more, left = l :: more → level ≤ l.level ∨ l.isComparison ∧ HasOpenComparison taken

/-- The scanner reads every chain up to the given level. -/
def ReadsChains (level : Nat) (p : Scan SyntaxTree) : Prop :=
  ∀ (first : FieldName) (links : List Link), ∃ tree rest taken left, links = taken ++ left ∧
    p (first.1.toList ++ links.flatMap Link.chars) = .accept tree rest ∧
    HasRead level level first tree rest taken left

namespace HasRead

variable {below level k : Nat} {first : FieldName} {tree right : SyntaxTree}
  {rest rest' : List Char} {taken left taken' left' : List Link} {l : Link}

theorem mono (h : HasRead below level first tree rest taken left) {below' : Nat}
    (hBelow : below ≤ below') : HasRead below' level first tree rest taken left :=
  { h with tighter := fun l hMem => Nat.lt_of_lt_of_le (h.tighter l hMem) hBelow }

/-- Where the next operator is not of the level, the level is passed. -/
theorem pass (h : HasRead below level first tree rest taken left)
    (hNext : ∀ l more, left = l :: more → l.level ≠ level) :
    HasRead below (level + 1) first tree rest taken left :=
  { h with
    stops := fun l more hLeft =>
      (h.stops l more hLeft).imp_left fun hLevel =>
        Nat.lt_of_le_of_ne hLevel (hNext l more hLeft).symm }

theorem of_rest (h : HasRead below level first tree rest taken left)
    (hRest : afterGap false rest' = afterGap false rest) :
    HasRead below level first tree rest' taken left :=
  { h with rest := hRest.trans h.rest }

theorem lone (h : HasRead below level first tree rest taken left) (k : Nat) :
    HasRead below level first (.node (jointRule k) [tree]) rest taken left :=
  { h with
    collapse := SyntaxTree.collapse_lone _ h.collapse
    reduces := by
      intro resolver phrase hPhrase
      obtain ⟨p, hTree, hNode⟩ := Phrase.children_of_one hPhrase
      obtain ⟨ty, rfl⟩ := h.reduces resolver p hTree
      rw [ofNode_jointRule] at hNode
      exact ⟨ty, (Except.ok.inj hNode).symm⟩ }

/-- An operator of the level takes up all that has been read before it. -/
theorem link (h : HasRead below level first tree rest taken (l :: left))
    (h' : HasRead l.level l.level l.operand right rest' taken' left')
    (hBelow : ∀ a ∈ taken, a.level ≤ l.level)
    (hApart : ComparesApart (taken ++ l :: taken')) :
    HasRead (l.level + 1) l.level first
      (.node (jointRule l.level) [tree, .leaf ⟨.operator, l.op.symbol⟩, right]) rest'
      (taken ++ l :: taken') left' := by
  have hSplit : Operation.ofChain first (taken ++ l :: taken') = .apply l.op _ _ :=
    Operation.ofChain_append hBelow h'.tighter
  refine ⟨?_, hApart, ?_, ?_, h'.rest, ?_⟩
  · intro a hMem
    rcases List.mem_append.mp hMem with hTaken | hMem
    · exact Nat.lt_succ_of_le (hBelow a hTaken)
    rcases List.mem_cons.mp hMem with rfl | hTaken
    · exact Nat.lt_succ_self _
    · exact Nat.lt_succ_of_lt (h'.tighter a hTaken)
  · rw [SyntaxTree.collapse_linked, h.collapse, h'.collapse, hSplit]
    rfl
  · intro resolver phrase hPhrase
    obtain ⟨p, q, r, hLeft, hToken, hRight, hNode⟩ := Phrase.children_of_three hPhrase
    obtain ⟨leftType, rfl⟩ := h.reduces resolver p hLeft
    obtain ⟨rightType, rfl⟩ := h'.reduces resolver r hRight
    obtain rfl := Except.ok.inj hToken
    rw [ofNode_jointRule] at hNode
    simp only [Phrase.ofChain, Phrase.toToken, Phrase.toExpr, if_true, ok_bind,
      BinaryOp.ofSymbol?_symbol] at hNode
    obtain ⟨ty, -, hPure⟩ := ok_of_bind hNode
    rw [hSplit]
    exact ⟨ty, (Except.ok.inj hPure).symm⟩
  · intro a more hLeft
    exact (h'.stops a more hLeft).imp_right fun hLate => ⟨hLate.1, hLate.2.append⟩

end HasRead

variable {inner : Inner}

/-! ## The lowest rung -/

theorem reads_name (inner : Inner) : ReadsChains 0 (rung inner 0) := by
  intro first links
  have hWord : StopsWord (links.flatMap Link.chars) := stops_links rfl links
  have hPoint : Declines (literal ".") (links.flatMap Link.chars) :=
    declines_literal (links_ne_cons (by decide) links)
  have hBracket : Declines (index inner) (links.flatMap Link.chars) :=
    declines_bind (declines_literal (links_ne_cons (by decide) links))
  have hOpen : Declines (literal "(") (afterGap false (links.flatMap Link.chars)) := by
    cases links with
    | nil => exact ⟨_, _, rfl⟩
    | cons l links =>
      rw [afterGap_link, Link.behindGap]
      cases l.op <;> exact ⟨_, _, rfl⟩
  have hName : name (first.1.toList ++ links.flatMap Link.chars) =
      .accept first.1.toList (links.flatMap Link.chars) :=
    name_eq_accept_iff.mpr ⟨rfl, first.2, hWord⟩
  have hCall : Declines (functionCall inner) (first.1.toList ++ links.flatMap Link.chars) := by
    refine declines_bind_of_accept hName ?_
    refine declines_bind_of_accept (gap_eq_accept _) ?_
    exact declines_bind hOpen
  have hVariable : Declines variableReference (first.1.toList ++ links.flatMap Link.chars) := by
    obtain ⟨c, more, hText, hStart, -⟩ := first.2.1
    rw [hText]
    refine declines_bind (declines_literal_of_head rfl ?_)
    rintro rfl
    cases hStart
  have hOwn : ownField (first.1.toList ++ links.flatMap Link.chars) =
      .accept (.node .ownField [.leaf ⟨.name, first.1⟩]) (links.flatMap Link.chars) := by
    rw [ownField, bind_of_accept hName, SyntaxTree.token, String.ofList_toList]
    rfl
  have hStep : referenceStep inner ⟨.node .ownField [.leaf ⟨.name, first.1⟩], false⟩
      (links.flatMap Link.chars) = .accept none (links.flatMap Link.chars) := by
    rw [referenceStep, bind_of_accept (optional_of_declines hPoint)]
    exact bind_of_accept (optional_of_declines hBracket)
  have hReference : reference inner (first.1.toList ++ links.flatMap Link.chars) =
      .accept (.node .ownField [.leaf ⟨.name, first.1⟩]) (links.flatMap Link.chars) := by
    have hBase := (orElse_of_declines (q := ownField) hVariable).trans hOwn
    rw [reference, bind_of_accept hBase]
    exact bind_of_accept (repeatWithin_of_none _ hStep)
  have hOperand : operand inner (first.1.toList ++ links.flatMap Link.chars) =
      .accept (.node .ownField [.leaf ⟨.name, first.1⟩]) (links.flatMap Link.chars) := by
    rw [operand_of_name first.2 hWord]
    refine expecting_eq_accept_iff.mpr ?_
    rw [firstOf_of_declines hCall]
    exact hReference
  refine ⟨_, _, [], links, rfl, hOperand, ?_, comparesApart_nil, ?_, ?_, rfl, ?_⟩
  · exact fun l hMem => absurd hMem List.not_mem_nil
  · rw [Operation.ofChain_nil]
    rfl
  · intro resolver phrase hPhrase
    rw [Operation.ofChain_nil]
    exact ⟨.any, (Except.ok.inj hPhrase).symm⟩
  · exact fun l _ _ => .inl (Nat.zero_le l.level)

/-! ## Up the rungs -/

theorem joint_of_link (l : Link) (more : List Link) :
    joint l.level (Link.behindGap l more) =
      .accept l.op.symbol (l.between.chars ++ (l.operand.1.toList ++ more.flatMap Link.chars)) := by
  obtain ⟨c, blanks, hHead, hBlank⟩ := head_blank l.between
  rw [Link.behindGap, hHead]
  exact joint_symbol hBlank l.op _

theorem joint_declines_link {l : Link} {k : Nat} (hk : k ≤ 6) (h : l.level ≠ k)
    (more : List Link) : Declines (joint k) (Link.behindGap l more) := by
  obtain ⟨c, blanks, hHead, hBlank⟩ := head_blank l.between
  rw [Link.behindGap, hHead]
  exact joint_declines hBlank hk h _

/-- Where no operator of the joint follows. -/
theorem joint_declines_left {k : Nat} (hk : k ≤ 6) {left : List Link}
    (h : ∀ l more, left = l :: more → l.level ≠ k) :
    Declines (joint k) (afterGap false (left.flatMap Link.chars)) := by
  cases left with
  | nil =>
    show Declines (joint k) []
    interval_cases k <;> exact ⟨_, _, rfl⟩
  | cons l more =>
    rw [afterGap_link]
    exact joint_declines_link hk (h l more rfl) more

theorem gap_between (l : Link) (more : List Link) :
    gap (l.between.chars ++ (l.operand.1.toList ++ more.flatMap Link.chars)) =
      .accept () (l.operand.1.toList ++ more.flatMap Link.chars) := by
  rw [gap_eq_accept, afterGap_blanks, gap_name l.operand.2]

variable {k : Nat} {first : FieldName} {tree : SyntaxTree} {rest : List Char}
  {taken left : List Link}

theorem comparesApart_of_level {l : Link} (hComparison : l.level ≠ 3)
    (hTaken : ∀ a ∈ taken, a.level ≤ l.level) {taken' : List Link}
    (hTaken' : ∀ a ∈ taken', a.level < l.level) (hApart : ComparesApart taken)
    (hApart' : ComparesApart taken') : ComparesApart (taken ++ l :: taken') := by
  by_cases hLogical : l.isLogical
  · exact comparesApart_of_logical hApart hApart' hLogical
  · have hLevel : l.level < 3 := Nat.lt_of_le_of_ne (Nat.not_lt.mp hLogical) hComparison
    refine comparesApart_of_one (fun a hMem => ?_) fun a hMem => ?_
    · exact Nat.ne_of_lt (Nat.lt_of_le_of_lt (hTaken a hMem) hLevel)
    · exact Nat.ne_of_lt (Nat.lt_trans (hTaken' a hMem) hLevel)

/-- One round of a chain: it ends where no operator of the joint follows, and else takes the
operator and the operand behind it. -/
theorem reads_chainLink (hk : k ≤ 6) (hComparison : k ≠ 3)
    (hOperand : ReadsChains k (rung inner k)) (linked : Bool)
    (h : HasRead (k + 1) k first tree rest taken left) :
    (chainLink (jointRule k) (rung inner k) (joint k) ⟨tree, linked⟩ rest =
        .accept none (afterGap false rest) ∧
      HasRead (k + 1) (k + 1) first tree (afterGap false rest) taken left) ∨
    ∃ tree' rest' l taken' left', left = l :: (taken' ++ left') ∧
      chainLink (jointRule k) (rung inner k) (joint k) ⟨tree, linked⟩ rest =
        .accept (some ⟨tree', true⟩) rest' ∧
      HasRead (k + 1) k first tree' rest' (taken ++ l :: taken') left' := by
  by_cases hNext : ∀ l more, left = l :: more → l.level ≠ k
  · refine .inl ⟨chainLink_of_declines ?_, (h.pass hNext).of_rest (afterGap_afterGap _ _)⟩
    rw [h.rest]
    exact joint_declines_left hk hNext
  · simp only [not_forall, not_not] at hNext
    obtain ⟨l, more, rfl, rfl⟩ := hNext
    obtain ⟨right, rest', taken', left', rfl, hRight, hRead⟩ := hOperand l.operand more
    refine .inr ⟨_, rest', l, taken', left', rfl, ?_, h.link hRead
      (fun a hMem => Nat.le_of_lt_succ (h.tighter a hMem)) ?_⟩
    · rw [chainLink, bind_of_accept (gap_eq_accept rest), h.rest, afterGap_link,
        bind_of_accept (optional_eq_accept_some_iff.mpr (joint_of_link l _))]
      refine bind_eq_accept_iff.mpr ⟨(), _, gap_between l _, ?_⟩
      exact bind_eq_accept_iff.mpr ⟨right, rest', require_eq_accept_iff.mpr hRight, rfl⟩
    · exact comparesApart_of_level hComparison
        (fun a hMem => Nat.le_of_lt_succ (h.tighter a hMem)) hRead.tighter h.apart hRead.apart

/-- The rounds of a chain, of which there are no more than links. -/
theorem reads_rounds (hk : k ≤ 6) (hComparison : k ≠ 3)
    (hOperand : ReadsChains k (rung inner k)) (n : Nat) (linked : Bool) (hBound : left.length < n)
    (h : HasRead (k + 1) k first tree rest taken left) :
    ∃ front rest' taken' left', taken ++ left = taken' ++ left' ∧
      repeatWithin (chainLink (jointRule k) (rung inner k) (joint k)) n ⟨tree, linked⟩ rest =
        .accept front rest' ∧
      HasRead (k + 1) (k + 1) first front.tree rest' taken' left' := by
  induction n generalizing tree rest taken left linked with
  | zero => cases hBound
  | succ n ih =>
    rcases reads_chainLink hk hComparison hOperand linked h with
      ⟨hLink, hRead⟩ | ⟨tree', rest', l, taken', left', rfl, hLink, hRead⟩
    · exact ⟨_, _, taken, left, rfl, repeatWithin_of_none n hLink, hRead⟩
    · have hShorter : left'.length < n := by
        simp only [List.length_cons, List.length_append] at hBound
        omega
      obtain ⟨front, rest'', taken'', left'', hLinks, hRun, hFinal⟩ := ih true hShorter hRead
      refine ⟨front, rest'', taken'', left'', ?_, ?_, hFinal⟩
      · rw [← hLinks, List.append_assoc, List.cons_append]
      · rw [repeatWithin, bind_of_accept hLink]
        exact hRun

theorem length_le_text (links : List Link) : links.length ≤ (links.flatMap Link.chars).length := by
  induction links with
  | nil => exact Nat.le_refl _
  | cons l links ih =>
    obtain ⟨c, more, hHead, -⟩ := head_blank l.before
    simp only [List.flatMap_cons, List.length_append, List.length_cons, Link.chars, hHead]
    omega

/-- The text that is left has a character for each link. -/
theorem HasRead.length_left {below level : Nat} (h : HasRead below level first tree rest taken left) :
    left.length ≤ rest.length := by
  have hRest := length_afterGap_le false rest
  rw [h.rest] at hRest
  refine Nat.le_trans ?_ hRest
  cases left with
  | nil => exact Nat.le_refl _
  | cons l more =>
    have hMore := length_le_text more
    have hSymbol : 0 < l.op.symbol.toList.length := by cases l.op <;> decide
    rw [afterGap_link, Link.behindGap]
    simp only [List.length_append, List.length_cons]
    omega

theorem reads_chain (hk : k ≤ 6) (hComparison : k ≠ 3) (hOperand : ReadsChains k (rung inner k)) :
    ReadsChains (k + 1) (rung inner (k + 1)) := by
  intro first links
  obtain ⟨tree, rest, taken, left, rfl, hFirst, hRead⟩ := hOperand first links
  have hBound : left.length < rest.length + 1 := Nat.lt_succ_of_le hRead.length_left
  obtain ⟨front, rest', taken', left', hLinks, hRun, hFinal⟩ :=
    reads_rounds hk hComparison hOperand (rest.length + 1) false hBound (hRead.mono (Nat.le_succ k))
  refine ⟨front.close (jointRule k), rest', taken', left', hLinks, ?_, ?_⟩
  · rw [rung_succ hk hComparison, chain, bind_of_accept hFirst]
    exact bind_of_accept hRun
  · unfold Front.close
    split
    · exact hFinal
    · exact hFinal.lone k

/-- A comparison takes one operator of its level and no second one. -/
theorem reads_comparison (hExpr : ReadsChains 3 (expr inner)) :
    ReadsChains 4 (logicAtom inner) := by
  intro first links
  obtain ⟨tree, rest, taken, left, rfl, hFirst, hRead⟩ := hExpr first links
  have hNot : Declines (keyword "not")
      (first.1.toList ++ (taken ++ left).flatMap Link.chars) :=
    (opens_name first.2 (stops_links rfl _)).negation
  rw [logicAtom_of_declines hNot]
  by_cases hNext : ∀ l more, left = l :: more → l.level ≠ 3
  · have hDeclines : Declines comparison (afterGap false rest) := by
      rw [hRead.rest]
      exact joint_declines_left (by decide) hNext
    refine ⟨.node (jointRule 3) [tree], afterGap false rest, taken, left, rfl, ?_, ?_⟩
    · rw [atomicCondition, bind_of_accept hFirst]
      refine bind_eq_accept_iff.mpr ⟨(), _, gap_eq_accept rest, ?_⟩
      exact bind_eq_accept_iff.mpr ⟨none, _, optional_of_declines hDeclines, rfl⟩
    · exact ((hRead.pass hNext).mono (Nat.le_succ 3)).lone 3 |>.of_rest (afterGap_afterGap _ _)
  · simp only [not_forall, not_not] at hNext
    obtain ⟨l, more, rfl, hLevel⟩ := hNext
    obtain ⟨right, rest', taken', left', rfl, hRight, hRead'⟩ := hExpr l.operand more
    have hOperator : comparison (Link.behindGap l (taken' ++ left')) = .accept l.op.symbol
        (l.between.chars ++ (l.operand.1.toList ++ (taken' ++ left').flatMap Link.chars)) := by
      have hJoint := joint_of_link l (taken' ++ left')
      rw [hLevel] at hJoint
      exact hJoint
    have hTighter : ∀ a ∈ taken', a.level < 3 := hRead'.tighter
    have hApart : ComparesApart (taken ++ l :: taken') :=
      comparesApart_of_one (fun a hMem => Nat.ne_of_lt (hRead.tighter a hMem))
        fun a hMem => Nat.ne_of_lt (hTighter a hMem)
    have hOpen : HasOpenComparison (taken ++ l :: taken') :=
      ⟨taken, l, taken', rfl, hLevel, fun a hMem => Nat.not_lt.mpr (Nat.le_of_lt (hTighter a hMem))⟩
    rw [← hLevel] at hRead'
    have hLinked := hRead.link hRead'
      (fun a hMem => hLevel ▸ Nat.le_of_lt (hRead.tighter a hMem)) hApart
    rw [hLevel] at hLinked
    refine ⟨_, rest', taken ++ l :: taken', left', ?_, ?_, { hLinked with stops := ?_ }⟩
    · rw [List.append_assoc, List.cons_append]
    · rw [atomicCondition, bind_of_accept hFirst, bind_of_accept (gap_eq_accept rest), hRead.rest,
        afterGap_link, bind_of_accept (optional_eq_accept_some_iff.mpr hOperator)]
      refine bind_eq_accept_iff.mpr ⟨(), _, gap_between l _, ?_⟩
      exact bind_eq_accept_iff.mpr ⟨right, rest', require_eq_accept_iff.mpr hRight, rfl⟩
    · intro a more hLeft
      rcases hLinked.stops a more hLeft with hLevel' | hLate
      · rcases Nat.eq_or_lt_of_le hLevel' with hThree | hLogical
        · exact .inr ⟨hThree.symm, hOpen⟩
        · exact .inl hLogical
      · exact .inr hLate

/-- Every rung reads chains up to its level. -/
theorem reads_rung (inner : Inner) (k : Nat) (hk : k ≤ 7) : ReadsChains k (rung inner k) := by
  induction k with
  | zero => exact reads_name inner
  | succ k ih =>
    have hBefore := ih (Nat.le_of_succ_le hk)
    by_cases hComparison : k = 3
    · subst hComparison
      exact reads_comparison hBefore
    · exact reads_chain (Nat.le_of_succ_le_succ hk) hComparison hBefore

end TopicSpec.Grammar
