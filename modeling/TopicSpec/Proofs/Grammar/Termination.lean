import TopicSpec.Proofs.Grammar.Progress

/-! # Termination

The productions of conditions are defined by levels of nesting, as many as the text has characters.
They solve the equations of their circle without any level, and nothing else solves them: each call
is one of a tighter production or has a shorter text before it. Ten calls inside each other for each
character are therefore enough, whatever would be called beyond them. The productions of
specifications do not occur inside themselves, and the loops end themselves.
-/

namespace TopicSpec
open Scan
set_option autoImplicit false

namespace Grammar.Production

variable {p : Production} {call bottom : Production → Scan SyntaxTree} {s : List Char} {k n : Nat}

/-- The productions that are called behind a character. -/
def inside (call : Production → Scan SyntaxTree) : Inner :=
  ⟨call condition, call logicAtom, call expr, call operand⟩

/-- The production with `call` for all that it calls. -/
def calling (call : Production → Scan SyntaxTree) (p : Production) : Scan SyntaxTree :=
  p.body (inside call) call

/-- The productions with at most `n` calls inside each other, and with `bottom` for what is called
beyond them. -/
def callsWithin (bottom : Production → Scan SyntaxTree) : Nat → Production → Scan SyntaxTree
  | 0 => bottom
  | n + 1 => calling (callsWithin bottom n)

/-! ## The equations of the circle -/

theorem runOver_productions (p : Production) (s : List Char) :
    p.runOver productions s = p.runOver (nested s.length) s :=
  (below_runOver (below_productions s.length) p).eq (Nat.lt_succ_self _)

theorem inside_scan : inside scan = productions := by
  have hCondition : condition.scan = productions.condition := funext (runOver_productions condition)
  have hLogicAtom : logicAtom.scan = productions.logicAtom := funext (runOver_productions logicAtom)
  have hExpr : expr.scan = productions.expr := funext (runOver_productions expr)
  have hOperand : operand.scan = productions.operand := funext (runOver_productions operand)
  rw [inside, hCondition, hLogicAtom, hExpr, hOperand]

theorem calling_scan (p : Production) : p.calling scan = p.scan := by
  rw [calling, inside_scan, scan, runOver_eq_body]
  rfl

theorem scan_condition : condition.scan = anyCondition := funext (runOver_productions condition)

/-! ## Calls -/

theorem below_calling (hShorter : ∀ q : Production, AgreeBelow n (call q) q.scan)
    (hTighter : ∀ q : Production, q.rank < p.rank → AgreeBelow (n + 1) (call q) q.scan) :
    AgreeBelow (n + 1) (p.calling call) p.scan := by
  rw [← calling_scan]
  have hInside : InnerBelow n (inside call) (inside scan) :=
    ⟨hShorter condition, hShorter logicAtom, hShorter expr, hShorter operand⟩
  exact below_body hInside hTighter

/-- What a production reads is settled by its calls on shorter texts, and by its calls of tighter
productions. -/
theorem calling_eq_scan (h : ∀ (q : Production) (r : List Char),
    r.length < s.length ∨ r.length ≤ s.length ∧ q.rank < p.rank → call q r = q.scan r) :
    p.calling call s = p.scan s := by
  have hShorter : ∀ q : Production, AgreeBelow s.length (call q) q.scan := fun q =>
    q.advances_scan.agreeBelow.congr fun r hr => h q r (.inl hr)
  have hTighter : ∀ q : Production, q.rank < p.rank → AgreeBelow (s.length + 1) (call q) q.scan :=
    fun q hq => q.advances_scan.agreeBelow.congr fun r hr =>
      h q r (.inr ⟨Nat.le_of_lt_succ hr, hq⟩)
  exact (below_calling hShorter hTighter).eq (Nat.lt_succ_self _)

/-- A character takes ten calls: one for each rank. -/
theorem below_callsWithin (h : 10 * k + p.rank < n) :
    AgreeBelow (k + 1) (callsWithin bottom n p) p.scan := by
  induction n generalizing k p with
  | zero => exact absurd h (Nat.not_lt_zero _)
  | succ n ih =>
    refine below_calling (fun q => ?_) fun q hq => ih (by omega)
    cases k with
    | zero => exact .zero
    | succ k =>
      have hRank := q.rank_le
      exact ih (by omega)

theorem callsWithin_eq_scan (h : 10 * (s.length + 1) ≤ n) :
    callsWithin bottom n p s = p.scan s := by
  have hRank := p.rank_le
  exact (below_callsWithin (by omega)).eq (Nat.lt_succ_self _)

theorem callsWithin_of_solution (h : ∀ p, call p = calling call p) (n : Nat) :
    callsWithin call n = call := by
  induction n with
  | zero => rfl
  | succ n ih =>
    funext p
    rw [callsWithin, ih, ← h]

theorem solution_iff : (∀ p, call p = calling call p) ↔ call = scan := by
  constructor
  · intro h
    funext p s
    -- A solution is what it is with any number of calls, enough of them included.
    rw [← callsWithin_of_solution h (10 * (s.length + 1))]
    exact callsWithin_eq_scan (Nat.le_refl _)
  · rintro rfl p
    exact (calling_scan p).symm

end Grammar.Production

/-! ## Loops -/

namespace Scan

variable {α σ : Type}

/-- A loop that ends itself: each round but the last reads a character, and the loop goes on as
long as its step asks for another round. -/
structure LoopEnds (step : σ → Scan (Option σ)) : Prop where
  advances : ∀ state, AdvancesRound (step state)
  unrolls : ∀ state, repeated step state = (step state >>= fun next? =>
    match next? with
    | some next => repeated step next
    | none => pure state)

/-- As for a loop with a state, where the loop lists the values of its rounds. -/
structure ListingEnds (step : Scan (Option α)) : Prop where
  advances : AdvancesRound step
  unrolls : many step = (step >>= fun a? =>
    match a? with
    | some a => many step >>= fun values => pure (a :: values)
    | none => pure [])

theorem loopEnds_of_rounds {step : σ → Scan (Option σ)} (h : ∀ state, AdvancesRound (step state)) :
    LoopEnds step :=
  ⟨h, repeated_unrolls h⟩

theorem listingEnds_of_rounds {step : Scan (Option α)} (h : AdvancesRound step) :
    ListingEnds step :=
  ⟨h, many_unrolls h⟩

end Scan

namespace Grammar

theorem below_self (n : Nat) : InnerBelow n productions productions :=
  have h := below_productions n
  ⟨h.condition.left, h.logicAtom.left, h.expr.left, h.operand.left⟩

theorem advancesRound_referenceStep (stem : Stem) :
    AdvancesRound (referenceStep productions stem) :=
  advancesRound_of_agree fun m => agree_referenceStep (below_self m) (Nat.le_refl m) stem

theorem advancesRound_furtherMember : AdvancesRound (optional (furtherMember productions)) :=
  advancesRound_of_agree fun m => (agree_furtherMember (below_self m) (Nat.le_refl m)).round

end Grammar

/-! ## The place of an error -/

theorem Scan.byteSize_eq (s : List Char) : byteSize s = (String.ofList s).utf8ByteSize := by
  induction s with
  | nil => rfl
  | cons c s ih =>
    have hCons : String.ofList (c :: s) = String.singleton c ++ String.ofList s := by
      rw [String.singleton_eq_ofList, ← String.ofList_append]
      rfl
    rw [byteSize, ih, hCons, String.utf8ByteSize_append, String.utf8ByteSize_singleton]

/-- The number of bytes before a suffix is a place between two characters. -/
theorem Scan.offset_isValid {text : String} {rest : List Char} (h : rest <:+ text.toList) :
    (String.Pos.Raw.mk (offset text.toList rest)).IsValid text := by
  obtain ⟨read, hText⟩ := h
  refine String.Pos.Raw.isValid_iff_exists_append.mpr
    ⟨String.ofList read, String.ofList rest, ?_, ?_⟩
  · rw [← String.ofList_append, hText, String.ofList_toList]
  · rw [← hText, offset_append, byteSize_eq]
    rfl

theorem Form.advances_production (form : Form) : Advances form.production := by
  cases form with
  | property => exact Grammar.advances_property
  | assumption => exact Grammar.advances_assumption
  | predicate => exact Grammar.advances_topLevelCondition

theorem SyntaxTree.offset_isValid {form : Form} {text : String} {e : SyntaxError}
    (h : ofText form text = .error e) : (String.Pos.Raw.mk e.offset).IsValid text := by
  have hSuffix := form.advances_production.suffix text.toList
  unfold ofText Scan.whole at h
  split at h
  · cases h
  all_goals
    rename_i hRun
    obtain rfl := Except.error.inj h
    rw [hRun] at hSuffix
    exact Scan.offset_isValid hSuffix

/-! ## Reading as a whole -/

namespace Grammar

/-- The words and marks between the operands of each level of precedence. -/
def operators : List (Scan String) :=
  [oneKeyword "implies" ["iff"], oneKeyword "or" [], oneKeyword "and" [], comparison,
   oneMark "+" ["-"], productOperator, oneMark "**" []]

theorem advances_of_mem_operators {p : Scan String} (h : p ∈ operators) : Advances p := by
  revert p
  simp only [operators, List.forall_mem_cons, List.not_mem_nil, false_imp_iff, implies_true,
    and_true]
  exact ⟨advances_oneKeyword (by decide), advances_oneKeyword (by decide),
    advances_oneKeyword (by decide), advances_comparison, advances_oneMark (by decide),
    advances_productOperator, advances_oneMark (by decide)⟩

theorem advances_lexemes :
    ∀ p ∈ [identifier, name, topicName, quoted, Scan.number], Advances p := by
  simp only [List.forall_mem_cons, List.not_mem_nil, false_imp_iff, implies_true, and_true]
  exact ⟨advances_identifier, advances_name, advances_topicName, advances_quoted, advances_number⟩

/-- Reading comes to its end on every text. The circle of productions has one solution, because
each call is one of a tighter production or has a shorter text before it, and calls are never inside
each other more than ten times for each character. All readers stand at a suffix of their text
however they end, and all but that of gaps have read a character of what they accept; so has each
round of a loop. The place of an error is one between two characters of the text. -/
theorem reading_terminates :
    (∀ call, (∀ p, call p = Production.calling call p) ↔ call = Production.scan) ∧
    Production.scan .condition = anyCondition ∧
    (∀ (p : Production) call s,
      (∀ (q : Production) (r : List Char),
        r.length < s.length ∨ r.length ≤ s.length ∧ q.rank < p.rank → call q r = q.scan r) →
      p.calling call s = p.scan s) ∧
    (∀ bottom n (p : Production) s, 10 * (s.length + 1) ≤ n →
      Production.callsWithin bottom n p s = p.scan s) ∧
    (∀ p : Production, Advances p.scan) ∧ (∀ p ∈ specificationProductions, Advances p) ∧
    (∀ p ∈ operators, Advances p) ∧
    (∀ p ∈ [identifier, name, topicName, quoted, Scan.number], Advances p) ∧
    (∀ word : String, word.toList ≠ [] → Advances (keyword word)) ∧ Stays gap ∧
    (∀ rule operand operator, Advances operand → Advances operator →
      Advances (chain rule operand operator) ∧ LoopEnds (chainLink rule operand operator)) ∧
    LoopEnds (referenceStep productions) ∧ ListingEnds topicSegment ∧
    ListingEnds (optional (furtherMember productions)) ∧
    (∀ s comment, s.dropWhile isGapChar = '#' :: comment →
      gap s = gap (comment.dropWhile (· != '\n')) ∧
        (comment.dropWhile (· != '\n')).length < s.length) ∧
    (∀ s, (∀ comment, s.dropWhile isGapChar ≠ '#' :: comment) →
      gap s = .accept () (s.dropWhile isGapChar)) ∧
    ∀ form text e, SyntaxTree.ofText form text = .error e →
      e.offset ≤ text.utf8ByteSize ∧ (String.Pos.Raw.mk e.offset).IsValid text := by
  refine ⟨fun _ => Production.solution_iff, Production.scan_condition,
    fun _ _ _ => Production.calling_eq_scan, fun _ _ _ _ => Production.callsWithin_eq_scan,
    Production.advances_scan, fun _ => advances_of_mem_specificationProductions,
    fun _ => advances_of_mem_operators, advances_lexemes, fun _ => advances_keyword, stays_gap,
    fun rule operand operator hOperand hOperator => ?_,
    loopEnds_of_rounds advancesRound_referenceStep, listingEnds_of_rounds advancesRound_topicSegment,
    listingEnds_of_rounds advancesRound_furtherMember, fun _ _ => gap_of_comment,
    fun _ => gap_of_no_comment, fun form text e h => ?_⟩
  · exact ⟨advances_chain hOperand hOperator,
      loopEnds_of_rounds (advancesRound_chainLink hOperand hOperator)⟩
  · have hValid := SyntaxTree.offset_isValid h
    exact ⟨hValid.le_rawEndPos, hValid⟩

/-- What cannot be read begins behind a character of two bytes, and is one itself. -/
theorem error_stands_between_characters :
    SyntaxTree.ofText .predicate "\"ä\" = ü" = .error ⟨7, [.value, .comparand]⟩ ∧
      7 ≤ "\"ä\" = ü".utf8ByteSize ∧ (String.Pos.Raw.mk 7).IsValid "\"ä\" = ü" := by
  have hRead : (SyntaxTree.ofText .predicate "\"ä\" = ü").map (fun _ => ()) =
      .error ⟨7, [.value, .comparand]⟩ := by decide +kernel
  have hError : SyntaxTree.ofText .predicate "\"ä\" = ü" = .error ⟨7, [.value, .comparand]⟩ := by
    cases hTree : SyntaxTree.ofText .predicate "\"ä\" = ü" with
    | ok tree =>
      rw [hTree] at hRead
      cases hRead
    | error e =>
      rw [hTree] at hRead
      exact congrArg Except.error (Except.error.inj hRead)
  obtain ⟨-, -, -, -, -, -, -, -, -, -, -, -, -, -, -, -, hPlace⟩ := reading_terminates
  exact ⟨hError, hPlace _ _ _ hError⟩

end Grammar
end TopicSpec
