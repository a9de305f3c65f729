import TopicSpec.Proofs.Grammar.Rereading
import TopicSpec.Proofs.Grammar.SpecificationSound

/-! # The text of a condition reads as the condition

Up to the members of its sets: they are rendered without parentheses, which a condition among them
would need. -/

namespace TopicSpec
open Grammar Scan
set_option autoImplicit false

variable {resolver : Option Resolver} {text : String} {e : Expr} {ty : Ty}

/-- What a condition that a text says has passed: it can be written, no variable in it hides
another, and its references have the types that they are used with. -/
theorem checked_of_ofText (h : Expr.ofText resolver text = .ok e) :
    ∃ ty, e.Written ty ∧ e.checkBinding = .ok () ∧
      (Typing.Environment.withResolver resolver).checkCondition e = .ok () := by
  obtain ⟨tree, hRead, hCondition⟩ := ok_of_bind h
  obtain ⟨phrase, hPhrase, hExpr⟩ := ok_of_bind hCondition
  obtain ⟨⟨found, ty⟩, hFound, hPure⟩ := ok_of_bind hExpr
  obtain rfl : found = e := Except.ok.inj hPure
  obtain rfl := Phrase.eq_of_toExpr hFound
  cases SyntaxTree.derives_of_ofText (ok_of_mapError hRead) with
  | topLevelCondition _ hDerives _ =>
    obtain ⟨p, hChild, hNode⟩ := Phrase.children_of_one hPhrase
    obtain ⟨⟨x, tx⟩, hx, hChecks⟩ := ok_of_bind hNode
    obtain ⟨_, hBinding, hRest⟩ := ok_of_bind hChecks
    obtain ⟨_, hTyping, hSame⟩ := ok_of_bind hRest
    obtain rfl := Phrase.eq_of_toExpr hx
    cases hSame
    exact ⟨ty, Phrase.written_of_derives hDerives rfl nofun hChild, ok_of_mapError hBinding,
      ok_of_mapError hTyping⟩

theorem ofTopLevelCondition_eq_ok {rule : Rule} (hBinding : e.checkBinding = .ok ())
    (hTyping : (Typing.Environment.withResolver resolver).checkCondition e = .ok ()) :
    Phrase.ofTopLevelCondition resolver rule [.expr e ty] = .ok (.expr e ty) := by
  simp only [Phrase.ofTopLevelCondition, Phrase.toExpr, ok_bind, hBinding, hTyping]
  rfl

/-- How the production of a whole condition answers to the text of one. -/
theorem settles_topLevelCondition (resolver : Option Resolver) (h : e.Written ty) :
    Settles e.SetsPlain (fun tree rest => rest = [] ∧ ∃ condition,
        tree = .node .topLevelCondition [condition] ∧
        Phrase.ofTree resolver condition = .ok (.expr e ty))
      (topLevelCondition e.chars) := by
  have hFront : gap e.chars = .accept () e.chars := by
    have hGap := gap_chars h []
    rw [List.append_nil] at hGap
    rw [gap_eq_accept, hGap]
  have hCondition : Reads resolver e.SetsPlain e ty [] (anyCondition e.chars) := by
    have hNested : (nested (e.chars.length + 1)).Rereads resolver (e.chars.length + 1) :=
      nested_rereads _
    have hRead := hNested.condition h (Nat.lt_succ_self _) (.inl rfl)
    rwa [List.append_nil] at hRead
  refine settles_bind_of_accept hFront ?_
  refine settles_bind_pure hCondition ?_
  rintro condition rest ⟨hRest, hTree⟩
  have hGap : gap rest = .accept () [] := by rw [gap_eq_accept, hRest]
  exact ⟨_, [], bind_of_accept hGap, rfl, condition, rfl, hTree⟩

/-- The text of a condition that has been read from a text is read as the same condition exactly
if no set in it has a condition for a member; the text of any other one breaks the grammar. -/
theorem ofText_render (h : Expr.ofText resolver text = .ok e) :
    (e.SetsPlain → Expr.ofText resolver e.render = .ok e) ∧
      (¬e.SetsPlain → ∃ error, Expr.ofText resolver e.render = .error (.malformed error)) := by
  obtain ⟨ty, hWritten, hBinding, hTyping⟩ := checked_of_ofText h
  have hSettles := settles_topLevelCondition resolver hWritten
  cases hScan : topLevelCondition e.chars with
  | accept tree rest =>
    rw [hScan] at hSettles
    obtain ⟨hPlain, rfl, condition, rfl, hTree⟩ := hSettles
    refine ⟨fun _ => ?_, fun hNot => absurd hPlain hNot⟩
    have hWhole : SyntaxTree.ofText .predicate e.render =
        .ok (.node .topLevelCondition [condition]) := Scan.whole_eq_ok_iff.mpr hScan
    have hPhrase : Phrase.ofTree resolver (.node .topLevelCondition [condition]) =
        .ok (.expr e ty) := by
      rw [Phrase.ofTree_one hTree]
      exact ofTopLevelCondition_eq_ok hBinding hTyping
    rw [Expr.ofText, readTree, hWhole, mapError_ok, ok_bind, SyntaxTree.toCondition, hPhrase]
    rfl
  | reject committed expected rest =>
    rw [hScan] at hSettles
    cases committed with
    | false => exact absurd hSettles id
    | true =>
      refine ⟨fun hPlain => absurd hPlain hSettles, fun _ => ?_⟩
      refine ⟨⟨offset e.chars rest, expected⟩, ?_⟩
      have hWhole : SyntaxTree.ofText .predicate e.render =
          .error ⟨offset e.chars rest, expected⟩ := by
        show Scan.whole topLevelCondition e.chars = _
        rw [Scan.whole, hScan]
      rw [Expr.ofText, readTree, hWhole]
      rfl

theorem comparison_among_members_is_lost :
    ∃ e, Expr.ofText none "x in \x7b(a = b), c\x7d" = .ok e ∧ ¬e.SetsPlain ∧
      e.render = "(x) in (\x7b(a) = (b), c\x7d)" ∧
      ∃ error, Expr.ofText none e.render = .error (.malformed error) := by
  have hText : (Expr.ofText none "x in \x7b(a = b), c\x7d").toOption.map Expr.render =
      some "(x) in (\x7b(a) = (b), c\x7d)" := by decide +kernel
  have hRefused : (Expr.ofText none "(x) in (\x7b(a) = (b), c\x7d)").isOk = false := by
    decide +kernel
  cases hRead : Expr.ofText none "x in \x7b(a = b), c\x7d" with
  | error error =>
    rw [hRead] at hText
    cases hText
  | ok e =>
    rw [hRead] at hText
    have hRender : e.render = "(x) in (\x7b(a) = (b), c\x7d)" := Option.some.inj hText
    have hSets : ¬e.SetsPlain := by
      intro hPlain
      have hAgain := (ofText_render hRead).1 hPlain
      rw [hRender] at hAgain
      rw [hAgain] at hRefused
      cases hRefused
    exact ⟨e, rfl, hSets, hRender, (ofText_render hRead).2 hSets⟩

end TopicSpec
