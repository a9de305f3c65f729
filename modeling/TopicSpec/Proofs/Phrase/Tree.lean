import Mathlib.Data.List.Forall2
import TopicSpec.Phrase
import TopicSpec.Proofs.Conclusion

/-! # Trees and the phrases of their children

The phrase of a node is found by, and tells, those of its children. -/

namespace TopicSpec.Phrase
set_option autoImplicit false

variable {resolver : Option Resolver} {rule : Rule} {a b c d : SyntaxTree} {p q r s phrase : Phrase}

theorem ofTree_leaf (token : Token) :
    ofTree resolver (.leaf token) = .ok (.token token) := rfl

theorem ofTrees_of_forall₂ {trees : List SyntaxTree} {phrases : List Phrase}
    (h : List.Forall₂ (fun tree phrase => ofTree resolver tree = .ok phrase) trees phrases) :
    ofTrees resolver trees = .ok phrases := by
  induction h with
  | nil => rfl
  | cons hHead _ ih =>
    rw [ofTrees, hHead, ih]
    rfl

theorem forall₂_of_ofTrees {trees : List SyntaxTree} {phrases : List Phrase}
    (h : ofTrees resolver trees = .ok phrases) :
    List.Forall₂ (fun tree phrase => ofTree resolver tree = .ok phrase) trees phrases := by
  induction trees generalizing phrases with
  | nil =>
    obtain rfl := Except.ok.inj h
    exact .nil
  | cons tree trees ih =>
    obtain ⟨head, hHead, hRest⟩ := ok_of_bind h
    obtain ⟨tail, hTail, hPure⟩ := ok_of_bind hRest
    obtain rfl := Except.ok.inj hPure
    exact .cons hHead (ih hTail)

theorem exists_tree_of_mem {trees : List SyntaxTree} {phrases : List Phrase}
    (h : ofTrees resolver trees = .ok phrases) (hPhrase : phrase ∈ phrases) :
    ∃ tree ∈ trees, ofTree resolver tree = .ok phrase := by
  have hAll := forall₂_of_ofTrees h
  clear h
  induction hAll with
  | nil => cases hPhrase
  | @cons tree _ _ _ hHead _ ih =>
    rcases List.mem_cons.mp hPhrase with rfl | hTail
    · exact ⟨tree, List.mem_cons_self, hHead⟩
    · obtain ⟨found, hFound, hTree⟩ := ih hTail
      exact ⟨found, List.mem_cons_of_mem _ hFound, hTree⟩

/-! ## Nodes from their children -/

theorem ofTree_one (ha : ofTree resolver a = .ok p) :
    ofTree resolver (.node rule [a]) = ofNode resolver rule [p] := by
  rw [ofTree, ofTrees_of_forall₂ (.cons ha .nil), ok_bind]

theorem ofTree_two (ha : ofTree resolver a = .ok p) (hb : ofTree resolver b = .ok q) :
    ofTree resolver (.node rule [a, b]) = ofNode resolver rule [p, q] := by
  rw [ofTree, ofTrees_of_forall₂ (.cons ha (.cons hb .nil)), ok_bind]

theorem ofTree_three (ha : ofTree resolver a = .ok p) (hb : ofTree resolver b = .ok q)
    (hc : ofTree resolver c = .ok r) :
    ofTree resolver (.node rule [a, b, c]) = ofNode resolver rule [p, q, r] := by
  rw [ofTree, ofTrees_of_forall₂ (.cons ha (.cons hb (.cons hc .nil))), ok_bind]

theorem ofTree_four (ha : ofTree resolver a = .ok p) (hb : ofTree resolver b = .ok q)
    (hc : ofTree resolver c = .ok r) (hd : ofTree resolver d = .ok s) :
    ofTree resolver (.node rule [a, b, c, d]) = ofNode resolver rule [p, q, r, s] := by
  rw [ofTree, ofTrees_of_forall₂ (.cons ha (.cons hb (.cons hc (.cons hd .nil)))), ok_bind]

/-! ## Children from their node -/

theorem ofNode_of_lexeme {token : Token}
    (h : ofTree resolver (.node rule [.leaf token]) = .ok phrase) :
    ofNode resolver rule [.token token] = .ok phrase := h

theorem children_of_one (h : ofTree resolver (.node rule [a]) = .ok phrase) :
    ∃ p, ofTree resolver a = .ok p ∧ ofNode resolver rule [p] = .ok phrase := by
  obtain ⟨phrases, hChildren, hNode⟩ := ok_of_bind h
  obtain ⟨p, _, ha, hNil, rfl⟩ := List.forall₂_cons_left_iff.mp (forall₂_of_ofTrees hChildren)
  obtain rfl := List.forall₂_nil_left_iff.mp hNil
  exact ⟨p, ha, hNode⟩

theorem children_of_two (h : ofTree resolver (.node rule [a, b]) = .ok phrase) :
    ∃ p q, ofTree resolver a = .ok p ∧ ofTree resolver b = .ok q ∧
      ofNode resolver rule [p, q] = .ok phrase := by
  obtain ⟨phrases, hChildren, hNode⟩ := ok_of_bind h
  obtain ⟨p, _, ha, hMore, rfl⟩ := List.forall₂_cons_left_iff.mp (forall₂_of_ofTrees hChildren)
  obtain ⟨q, _, hb, hNil, rfl⟩ := List.forall₂_cons_left_iff.mp hMore
  obtain rfl := List.forall₂_nil_left_iff.mp hNil
  exact ⟨p, q, ha, hb, hNode⟩

theorem children_of_three (h : ofTree resolver (.node rule [a, b, c]) = .ok phrase) :
    ∃ p q r, ofTree resolver a = .ok p ∧ ofTree resolver b = .ok q ∧ ofTree resolver c = .ok r ∧
      ofNode resolver rule [p, q, r] = .ok phrase := by
  obtain ⟨phrases, hChildren, hNode⟩ := ok_of_bind h
  obtain ⟨p, _, ha, hMore₁, rfl⟩ := List.forall₂_cons_left_iff.mp (forall₂_of_ofTrees hChildren)
  obtain ⟨q, _, hb, hMore₂, rfl⟩ := List.forall₂_cons_left_iff.mp hMore₁
  obtain ⟨r, _, hc, hNil, rfl⟩ := List.forall₂_cons_left_iff.mp hMore₂
  obtain rfl := List.forall₂_nil_left_iff.mp hNil
  exact ⟨p, q, r, ha, hb, hc, hNode⟩

theorem children_of_four (h : ofTree resolver (.node rule [a, b, c, d]) = .ok phrase) :
    ∃ p q r s, ofTree resolver a = .ok p ∧ ofTree resolver b = .ok q ∧
      ofTree resolver c = .ok r ∧ ofTree resolver d = .ok s ∧
      ofNode resolver rule [p, q, r, s] = .ok phrase := by
  obtain ⟨phrases, hChildren, hNode⟩ := ok_of_bind h
  obtain ⟨p, _, ha, hMore₁, rfl⟩ := List.forall₂_cons_left_iff.mp (forall₂_of_ofTrees hChildren)
  obtain ⟨q, _, hb, hMore₂, rfl⟩ := List.forall₂_cons_left_iff.mp hMore₁
  obtain ⟨r, _, hc, hMore₃, rfl⟩ := List.forall₂_cons_left_iff.mp hMore₂
  obtain ⟨s, _, hd, hNil, rfl⟩ := List.forall₂_cons_left_iff.mp hMore₃
  obtain rfl := List.forall₂_nil_left_iff.mp hNil
  exact ⟨p, q, r, s, ha, hb, hc, hd, hNode⟩

/-! ## Typed expressions -/

theorem typed_eq_ok {e : Expr} {types : List Ty} {ty : Ty}
    (h : Typing.nodeType e types = .ok ty) : typed e types = .ok (.expr e ty) := by
  rw [typed, h]
  rfl

theorem nodeType_of_typed {e found : Expr} {types : List Ty} {ty : Ty}
    (h : typed e types = .ok (.expr found ty)) :
    found = e ∧ Typing.nodeType e types = .ok ty := by
  cases hType : Typing.nodeType e types with
  | error error =>
    rw [typed, hType] at h
    cases h
  | ok found =>
    rw [typed_eq_ok hType] at h
    cases h
    exact ⟨rfl, rfl⟩

/-! ## Literals -/

theorem ofTree_guard {tree : SyntaxTree} {e : Expr} {ty : Ty}
    (h : ofTree resolver tree = .ok (.expr e ty))
    (hExpect : Typing.expect .guard (.only .bool) ty e = .ok ()) :
    ofTree resolver (.node .guard [tree]) = .ok (.guard e) := by
  rw [ofTree_one h]
  simp only [ofNode, ofGuard, toExpr, ok_bind, hExpect]
  rfl

theorem ofLiteral_eq_ok {kind : TokenKind} {read : String → Except SpecError Literal}
    {lexeme : String} {l : Literal} (h : read lexeme = .ok l) :
    ofLiteral rule kind read [.token ⟨kind, lexeme⟩] =
      .ok (.expr (.literal l) (.only (Typing.literalKind l.value))) := by
  simp only [ofLiteral, toToken, if_true, ok_bind, h]
  exact typed_eq_ok rfl

/-- A minus sign stays before what is no number. -/
theorem ofNegativeNumber_eq (p : Phrase) {x : Expr} {operandType : Ty}
    (h : ∀ l, x = .literal l → l.negate? = none) :
    ofNegativeNumber rule [p, .expr x operandType] = typed (.unary .neg x) [operandType] := by
  cases x with
  | literal l => simp [ofNegativeNumber, toExpr, h l rfl]
  | _ => rfl

theorem ofNegativeNumber_literal (p : Phrase) {l negative : Literal} {operandType : Ty}
    (h : l.negate? = some negative) :
    ofNegativeNumber rule [p, .expr (.literal l) operandType] = typed (.literal negative) [] := by
  simp [ofNegativeNumber, toExpr, h]

end TopicSpec.Phrase
