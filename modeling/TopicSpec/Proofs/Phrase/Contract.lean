import TopicSpec.Phrase
import TopicSpec.Proofs.Grammar.SpecificationSound
import TopicSpec.Proofs.Literal.Reading
import TopicSpec.Proofs.Typing.OperandCount

/-! # The contract between grammar and phrases

A derived tree has a phrase of the sort of its nonterminal, or fails for what it says: no node of a
tree that was read has another shape than the builder of its phrase expects. -/

namespace TopicSpec
open Grammar Scan
set_option autoImplicit false

/-- The sort of phrases that the trees of a nonterminal stand for. -/
def Grammar.Nonterminal.sense : Nonterminal → Sense
  | property => .property
  | assumption => .assumption
  | scope => .scope
  | activator | terminator | event => .event
  | pattern => .pattern
  | bound => .duration
  | message => .message
  | topic => .topic
  | guard => .predicate
  | topLevelCondition | quantification | level _ | front _ _ | logicAtom | atomicCondition
  | operand | reference _ => .expression

theorem Grammar.Level.sense_operand (l : Level) : l.operand.sense = .expression := by
  cases l <;> rfl

namespace Phrase

/-- A phrase of the given sort, or an error in what a tree says. -/
abbrev Stands (sense : Sense) (r : Except SpecError Phrase) : Prop :=
  Concludes (fun phrase => phrase.sense = sense) SpecError.Substantive r

variable {resolver : Option Resolver} {rule : Rule} {tree : SyntaxTree} {trees : List SyntaxTree}
  {P : Phrase → Prop} {Q : List Phrase → Prop}

/-! ## Children -/

theorem concludes_leaf (token : Token) :
    Concludes (· = .token token) SpecError.Substantive (ofTree resolver (.leaf token)) := rfl

theorem concludes_node (hChildren : Concludes Q SpecError.Substantive (ofTrees resolver trees))
    (h : ∀ phrases, Q phrases → Concludes P SpecError.Substantive (ofNode resolver rule phrases)) :
    Concludes P SpecError.Substantive (ofTree resolver (.node rule trees)) :=
  concludes_bind hChildren h

theorem concludes_ofTrees_nil :
    Concludes (· = []) SpecError.Substantive (ofTrees resolver []) := rfl

theorem concludes_ofTrees_cons
    (hHead : Concludes P SpecError.Substantive (ofTree resolver tree))
    (hTail : Concludes Q SpecError.Substantive (ofTrees resolver trees)) :
    Concludes (fun phrases => ∃ head tail, phrases = head :: tail ∧ P head ∧ Q tail)
      SpecError.Substantive (ofTrees resolver (tree :: trees)) :=
  concludes_bind hHead fun head hHead => concludes_bind hTail fun tail hTail =>
    concludes_pure ⟨head, tail, rfl, hHead, hTail⟩

theorem concludes_ofTrees_all (h : ∀ tree ∈ trees, Concludes P SpecError.Substantive
    (ofTree resolver tree)) :
    Concludes (fun phrases => phrases.length = trees.length ∧ ∀ phrase ∈ phrases, P phrase)
      SpecError.Substantive (ofTrees resolver trees) := by
  induction trees with
  | nil => exact ⟨rfl, by simp⟩
  | cons tree trees ih =>
    refine (concludes_ofTrees_cons (h tree List.mem_cons_self)
      (ih fun tree hTree => h tree (List.mem_cons_of_mem _ hTree))).imp ?_
    rintro _ ⟨head, tail, rfl, hHead, hLength, hTail⟩
    refine ⟨by simp [hLength], fun phrase hPhrase => ?_⟩
    rcases List.mem_cons.mp hPhrase with rfl | hPhrase
    · exact hHead
    · exact hTail phrase hPhrase

section
variable {a b c d : SyntaxTree} {A B C D : Phrase → Prop}

theorem concludes_one (hA : Concludes A SpecError.Substantive (ofTree resolver a))
    (h : ∀ p, A p → Concludes P SpecError.Substantive (ofNode resolver rule [p])) :
    Concludes P SpecError.Substantive (ofTree resolver (.node rule [a])) := by
  refine concludes_node (concludes_ofTrees_cons hA concludes_ofTrees_nil) ?_
  rintro _ ⟨p, _, rfl, hp, rfl⟩
  exact h p hp

/-- A node that holds one lexeme alone. -/
theorem stands_lexeme {sense : Sense} {token : Token}
    (h : Stands sense (ofNode resolver rule [.token token])) :
    Stands sense (ofTree resolver (.node rule [.leaf token])) :=
  concludes_one (concludes_leaf token) fun _ hToken => hToken ▸ h

theorem concludes_two (hA : Concludes A SpecError.Substantive (ofTree resolver a))
    (hB : Concludes B SpecError.Substantive (ofTree resolver b))
    (h : ∀ p q, A p → B q → Concludes P SpecError.Substantive (ofNode resolver rule [p, q])) :
    Concludes P SpecError.Substantive (ofTree resolver (.node rule [a, b])) := by
  refine concludes_node (concludes_ofTrees_cons hA (concludes_ofTrees_cons hB
    concludes_ofTrees_nil)) ?_
  rintro _ ⟨p, _, rfl, hp, q, _, rfl, hq, rfl⟩
  exact h p q hp hq

theorem concludes_three (hA : Concludes A SpecError.Substantive (ofTree resolver a))
    (hB : Concludes B SpecError.Substantive (ofTree resolver b))
    (hC : Concludes C SpecError.Substantive (ofTree resolver c))
    (h : ∀ p q r, A p → B q → C r →
      Concludes P SpecError.Substantive (ofNode resolver rule [p, q, r])) :
    Concludes P SpecError.Substantive (ofTree resolver (.node rule [a, b, c])) := by
  refine concludes_node (concludes_ofTrees_cons hA (concludes_ofTrees_cons hB
    (concludes_ofTrees_cons hC concludes_ofTrees_nil))) ?_
  rintro _ ⟨p, _, rfl, hp, q, _, rfl, hq, r, _, rfl, hr, rfl⟩
  exact h p q r hp hq hr

theorem concludes_four (hA : Concludes A SpecError.Substantive (ofTree resolver a))
    (hB : Concludes B SpecError.Substantive (ofTree resolver b))
    (hC : Concludes C SpecError.Substantive (ofTree resolver c))
    (hD : Concludes D SpecError.Substantive (ofTree resolver d))
    (h : ∀ p q r s, A p → B q → C r → D s →
      Concludes P SpecError.Substantive (ofNode resolver rule [p, q, r, s])) :
    Concludes P SpecError.Substantive (ofTree resolver (.node rule [a, b, c, d])) := by
  refine concludes_node (concludes_ofTrees_cons hA (concludes_ofTrees_cons hB
    (concludes_ofTrees_cons hC (concludes_ofTrees_cons hD concludes_ofTrees_nil)))) ?_
  rintro _ ⟨p, _, rfl, hp, q, _, rfl, hq, r, _, rfl, hr, s, _, rfl, hs, rfl⟩
  exact h p q r s hp hq hr hs

end

/-! ## Sorts -/

theorem eq_expr_of_sense {phrase : Phrase} (h : phrase.sense = .expression) :
    ∃ e ty, phrase = .expr e ty := by
  cases phrase <;> simp_all [sense]

theorem eq_guard_of_sense {phrase : Phrase} (h : phrase.sense = .predicate) :
    ∃ condition, phrase = .guard condition := by
  cases phrase <;> simp_all [sense]

theorem eq_event_of_sense {phrase : Phrase} (h : phrase.sense = .event) :
    ∃ e, phrase = .event e := by
  cases phrase <;> simp_all [sense]

theorem eq_message_of_sense {phrase : Phrase} (h : phrase.sense = .message) :
    ∃ topic alias?, phrase = .message topic alias? := by
  cases phrase <;> simp_all [sense]

theorem eq_topic_of_sense {phrase : Phrase} (h : phrase.sense = .topic) :
    ∃ name, phrase = .topic name := by
  cases phrase <;> simp_all [sense]

theorem eq_seconds_of_sense {phrase : Phrase} (h : phrase.sense = .duration) :
    ∃ time, phrase = .seconds time := by
  cases phrase <;> simp_all [sense]

theorem eq_scope_of_sense {phrase : Phrase} (h : phrase.sense = .scope) :
    ∃ s, phrase = .scope s := by
  cases phrase <;> simp_all [sense]

theorem eq_pattern_of_sense {phrase : Phrase} (h : phrase.sense = .pattern) :
    ∃ p, phrase = .pattern p := by
  cases phrase <;> simp_all [sense]

theorem eq_property_of_sense {phrase : Phrase} (h : phrase.sense = .property) :
    ∃ p, phrase = .property p := by
  cases phrase <;> simp_all [sense]

theorem eq_assumption_of_sense {phrase : Phrase} (h : phrase.sense = .assumption) :
    ∃ a, phrase = .assumption a := by
  cases phrase <;> simp_all [sense]

/-! ## Expressions -/

section
variable {p q r : Phrase}

theorem stands_typed {e : Expr} {types : List Ty} (h : types.length = e.children.length) :
    Stands .expression (typed e types) :=
  concludes_bind (concludes_mapError (Typing.nodeType_concludes h) fun _ hError => hError)
    fun _ _ => concludes_pure rfl

theorem stands_ofChain_lone (hp : p.sense = .expression) :
    Stands .expression (ofChain rule [p]) := by
  obtain ⟨e, ty, rfl⟩ := eq_expr_of_sense hp
  rfl

theorem stands_ofChain_linked {symbol : String} (hp : p.sense = .expression)
    (hOp : (BinaryOp.ofSymbol? symbol).isSome) (hq : q.sense = .expression) :
    Stands .expression (ofChain rule [p, token ⟨.operator, symbol⟩, q]) := by
  obtain ⟨left, leftType, rfl⟩ := eq_expr_of_sense hp
  obtain ⟨right, rightType, rfl⟩ := eq_expr_of_sense hq
  obtain ⟨op, hOp⟩ := Option.isSome_iff_exists.mp hOp
  have hNode : ofChain rule [expr left leftType, token ⟨.operator, symbol⟩, expr right rightType] =
      typed (.binary op left right) [leftType, rightType] := by
    simp [ofChain, toToken, toExpr, hOp]
  rw [hNode]
  exact stands_typed rfl

theorem stands_ofNegation (hq : q.sense = .expression) :
    Stands .expression (ofNegation rule [p, q]) := by
  obtain ⟨e, ty, rfl⟩ := eq_expr_of_sense hq
  exact stands_typed rfl

theorem stands_ofNegativeNumber (hq : q.sense = .expression) :
    Stands .expression (ofNegativeNumber rule [p, q]) := by
  obtain ⟨e, ty, rfl⟩ := eq_expr_of_sense hq
  simp only [ofNegativeNumber, toExpr]
  refine concludes_bind (P := fun _ => True) trivial fun _ _ => ?_
  split
  · exact stands_typed rfl
  · exact stands_typed rfl

theorem stands_ofQuantification {word name : String} (hWord : (Quantifier.ofWord? word).isSome)
    (hp : p.sense = .expression) (hq : q.sense = .expression) :
    Stands .expression
      (ofQuantification rule [token ⟨.quantifier, word⟩, token ⟨.name, name⟩, p, q]) := by
  obtain ⟨domain, domainType, rfl⟩ := eq_expr_of_sense hp
  obtain ⟨body, bodyType, rfl⟩ := eq_expr_of_sense hq
  obtain ⟨quantifier, hWord⟩ := Option.isSome_iff_exists.mp hWord
  have hNode : ofQuantification rule [token ⟨.quantifier, word⟩, token ⟨.name, name⟩,
      expr domain domainType, expr body bodyType] =
      typed (.quantified quantifier name domain body) [domainType, bodyType] := by
    simp [ofQuantification, toToken, toExpr, hWord]
  rw [hNode]
  exact stands_typed rfl

theorem stands_ofFunctionCall {name : String} (hp : p.sense = .expression) :
    Stands .expression (ofFunctionCall rule [token ⟨.name, name⟩, p]) := by
  obtain ⟨e, ty, rfl⟩ := eq_expr_of_sense hp
  exact stands_typed rfl

theorem stands_ofEnumLiteral {phrases : List Phrase} (hNonempty : phrases ≠ [])
    (h : ∀ phrase ∈ phrases, phrase.sense = .expression) :
    Stands .expression (ofEnumLiteral rule phrases) := by
  have hMembers : ∀ phrase ∈ phrases,
      Concludes (fun _ => True) SpecError.Substantive (phrase.toExpr rule) := by
    intro phrase hPhrase
    obtain ⟨e, ty, rfl⟩ := eq_expr_of_sense (h phrase hPhrase)
    trivial
  have hEmpty : phrases.isEmpty = false := by simpa using hNonempty
  simp only [ofEnumLiteral, hEmpty, Bool.false_eq_true, if_false]
  refine concludes_bind (concludes_mapM hMembers) fun members _ => ?_
  exact stands_typed (by simp [Expr.children])

theorem excludes_concludes {inclusive exclusive text : String}
    (h : text ∈ [exclusive, inclusive]) :
    Concludes (fun _ => True) SpecError.Substantive (excludes rule inclusive exclusive text) := by
  simp only [List.mem_cons, List.not_mem_nil, or_false] at h
  unfold excludes
  split
  · trivial
  · rw [if_pos (by tauto)]
    trivial

theorem stands_ofRangeLiteral {left right : String} (hLeft : left ∈ ["![", "["])
    (hp : p.sense = .expression) (hq : q.sense = .expression) (hRight : right ∈ ["]!", "]"]) :
    Stands .expression (ofRangeLiteral rule
      [token ⟨.leftDelimiter, left⟩, p, q, token ⟨.rightDelimiter, right⟩]) := by
  obtain ⟨lower, lowerType, rfl⟩ := eq_expr_of_sense hp
  obtain ⟨upper, upperType, rfl⟩ := eq_expr_of_sense hq
  simp only [ofRangeLiteral, toToken, toExpr, if_true, ok_bind]
  refine concludes_bind (excludes_concludes hLeft) fun _ _ => ?_
  refine concludes_bind (excludes_concludes hRight) fun _ _ => ?_
  exact stands_typed rfl

theorem stands_ofVariable {name : String} :
    Stands .expression (ofVariable rule [token ⟨.name, name⟩]) :=
  @stands_typed (.var name) [] rfl

theorem stands_ofOwnField {name : String} :
    Stands .expression (ofOwnField rule [token ⟨.name, name⟩]) :=
  @stands_typed (.field .this name) [.only .message] rfl

theorem stands_ofFieldAccess {name : String} (hp : p.sense = .expression) :
    Stands .expression (ofFieldAccess rule [p, token ⟨.name, name⟩]) := by
  obtain ⟨e, ty, rfl⟩ := eq_expr_of_sense hp
  exact stands_typed rfl

theorem stands_ofArrayAccess (hp : p.sense = .expression) (hq : q.sense = .expression) :
    Stands .expression (ofArrayAccess rule [p, q]) := by
  obtain ⟨base, baseType, rfl⟩ := eq_expr_of_sense hp
  obtain ⟨position, positionType, rfl⟩ := eq_expr_of_sense hq
  exact stands_typed rfl

theorem stands_ofLiteral {kind : TokenKind} {read : String → Except SpecError Literal}
    {lexeme : String} {P : Literal → Prop}
    (h : Concludes P SpecError.Substantive (read lexeme)) :
    Stands .expression (ofLiteral rule kind read [token ⟨kind, lexeme⟩]) := by
  have hNode : ofLiteral rule kind read [token ⟨kind, lexeme⟩] =
      read lexeme >>= fun l => typed (.literal l) [] := by
    simp [ofLiteral, toToken]
  rw [hNode]
  exact concludes_bind h fun _ _ => stands_typed rfl

/-! ## Events, scopes and patterns -/

theorem stands_ofTopicName {name : String} :
    Stands .topic (ofTopicName rule [token ⟨.topicName, name⟩]) := rfl

theorem stands_ofGuard (hp : p.sense = .expression) : Stands .predicate (ofGuard rule [p]) := by
  obtain ⟨e, ty, rfl⟩ := eq_expr_of_sense hp
  simp only [ofGuard, toExpr, ok_bind]
  exact concludes_bind (concludes_mapError (Typing.expect_concludes _ _ _ _)
    fun _ hError => hError) fun _ _ => concludes_pure rfl

theorem stands_ofMessage (hp : p.sense = .topic) : Stands .message (ofMessage rule [p]) := by
  obtain ⟨name, rfl⟩ := eq_topic_of_sense hp
  rfl

theorem stands_ofMessage_as {word : String} (hp : p.sense = .topic) :
    Stands .message (ofMessage rule [p, token ⟨.name, word⟩]) := by
  obtain ⟨name, rfl⟩ := eq_topic_of_sense hp
  rfl

theorem stands_ofEvent (hp : p.sense = .message) : Stands .event (ofEvent rule [p]) := by
  obtain ⟨name, alias?, rfl⟩ := eq_message_of_sense hp
  rfl

theorem stands_ofEvent_guarded (hp : p.sense = .message) (hq : q.sense = .predicate) :
    Stands .event (ofEvent rule [p, q]) := by
  obtain ⟨name, alias?, rfl⟩ := eq_message_of_sense hp
  obtain ⟨condition, rfl⟩ := eq_guard_of_sense hq
  rfl

theorem stands_ofDelimiter (hp : p.sense = .event) : Stands .event (ofDelimiter rule [p]) := by
  obtain ⟨e, rfl⟩ := eq_event_of_sense hp
  rfl

theorem stands_ofAfterUntil (hp : p.sense = .event) : Stands .scope (ofAfterUntil rule [p]) := by
  obtain ⟨e, rfl⟩ := eq_event_of_sense hp
  rfl

theorem stands_ofAfterUntil_both (hp : p.sense = .event) (hq : q.sense = .event) :
    Stands .scope (ofAfterUntil rule [p, q]) := by
  obtain ⟨e, rfl⟩ := eq_event_of_sense hp
  obtain ⟨e', rfl⟩ := eq_event_of_sense hq
  rfl

theorem stands_ofUntil (hp : p.sense = .event) : Stands .scope (ofUntil rule [p]) := by
  obtain ⟨e, rfl⟩ := eq_event_of_sense hp
  rfl

theorem stands_ofBound {convert : String → String → Except SpecError Double}
    {amount unit : String} {P : Double → Prop}
    (h : Concludes P SpecError.Substantive (convert amount unit)) :
    Stands .duration
      (ofBound rule convert [token ⟨.number, amount⟩, token ⟨.unit, unit⟩]) := by
  simp only [ofBound, toToken, if_true, ok_bind]
  exact concludes_bind h fun _ _ => concludes_pure rfl

section
variable {make : Event → Double → Pattern} {make₂ : Event → Event → Double → Pattern}

theorem stands_ofUnaryPattern (hp : p.sense = .event) :
    Stands .pattern (ofUnaryPattern rule make [p]) := by
  obtain ⟨e, rfl⟩ := eq_event_of_sense hp
  rfl

theorem stands_ofUnaryPattern_bounded (hp : p.sense = .event) (hq : q.sense = .duration) :
    Stands .pattern (ofUnaryPattern rule make [p, q]) := by
  obtain ⟨e, rfl⟩ := eq_event_of_sense hp
  obtain ⟨time, rfl⟩ := eq_seconds_of_sense hq
  rfl

theorem stands_ofBinaryPattern (hp : p.sense = .event) (hq : q.sense = .event) :
    Stands .pattern (ofBinaryPattern rule make₂ [p, q]) := by
  obtain ⟨e, rfl⟩ := eq_event_of_sense hp
  obtain ⟨e', rfl⟩ := eq_event_of_sense hq
  rfl

theorem stands_ofBinaryPattern_bounded (hp : p.sense = .event) (hq : q.sense = .event)
    (hr : r.sense = .duration) : Stands .pattern (ofBinaryPattern rule make₂ [p, q, r]) := by
  obtain ⟨e, rfl⟩ := eq_event_of_sense hp
  obtain ⟨e', rfl⟩ := eq_event_of_sense hq
  obtain ⟨time, rfl⟩ := eq_seconds_of_sense hr
  rfl

end

/-! ## Whole texts -/

theorem concludes_liftM_binding {α : Type} (check : Except BindingError α) :
    Concludes (fun _ => True) SpecError.Substantive (liftM check : Except SpecError α) :=
  concludes_mapError (E := fun _ => True) (concludes_iff.mpr ⟨fun _ _ => trivial, fun _ _ => trivial⟩)
    fun _ _ => trivial

theorem concludes_liftM_checkCondition (env : Typing.Environment) (e : Expr) :
    Concludes (fun _ => True) SpecError.Substantive
      (liftM (env.checkCondition e) : Except SpecError Unit) :=
  concludes_mapError (Typing.Environment.checkCondition_concludes env e) fun _ hError => hError

theorem checkProperty_concludes (property : Property) :
    Concludes (fun _ => True) SpecError.Substantive (checkProperty resolver property) :=
  concludes_bind (concludes_liftM_binding _) fun _ _ =>
    concludes_forM fun _ _ => concludes_liftM_checkCondition _ _

theorem checkAssumption_concludes (assumption : Assumption) :
    Concludes (fun _ => True) SpecError.Substantive (checkAssumption resolver assumption) :=
  concludes_bind (concludes_liftM_binding _) fun _ _ => concludes_liftM_checkCondition _ _

theorem stands_ofProperty (hp : p.sense = .scope) (hq : q.sense = .pattern) :
    Stands .property (ofProperty resolver rule [p, q]) := by
  obtain ⟨s, rfl⟩ := eq_scope_of_sense hp
  obtain ⟨p, rfl⟩ := eq_pattern_of_sense hq
  exact concludes_bind (checkProperty_concludes _) fun _ _ => concludes_pure rfl

theorem stands_ofAssumption (hp : p.sense = .topic) (hq : q.sense = .predicate) :
    Stands .assumption (ofAssumption resolver rule [p, q]) := by
  obtain ⟨name, rfl⟩ := eq_topic_of_sense hp
  obtain ⟨condition, rfl⟩ := eq_guard_of_sense hq
  simp only [ofAssumption, toTopic, toGuard, ok_bind]
  exact concludes_bind (checkAssumption_concludes _) fun _ _ => concludes_pure rfl

theorem stands_ofTopLevelCondition (hp : p.sense = .expression) :
    Stands .expression (ofTopLevelCondition resolver rule [p]) := by
  obtain ⟨e, ty, rfl⟩ := eq_expr_of_sense hp
  simp only [ofTopLevelCondition, toExpr, ok_bind]
  exact concludes_bind (concludes_liftM_binding _) fun _ _ =>
    concludes_bind (concludes_liftM_checkCondition _ _) fun _ _ => concludes_pure rfl

end

/-! ## Trees -/

/-- Every operator of the grammar is one of expressions. -/
theorem isSome_ofSymbol?_of_mem_operators {l : Level} {op : String} (h : op ∈ l.operators) :
    (BinaryOp.ofSymbol? op).isSome := by
  cases l <;> revert op <;> decide

theorem isSome_ofSymbol?_of_mem_comparisons {op : String} (h : op ∈ comparisons) :
    (BinaryOp.ofSymbol? op).isSome := by
  revert op
  decide

theorem isSome_ofWord?_of_mem {word : String} (h : word ∈ ["forall", "exists"]) :
    (Quantifier.ofWord? word).isSome := by
  revert word
  decide

theorem ofNode_level (l : Level) (phrases : List Phrase) :
    ofNode resolver l.rule phrases = ofChain l.rule phrases := by
  cases l <;> rfl

theorem ofNode_unary {word : String}
    (h : (rule, word) ∈ [(Rule.existence, "some"), (.absence, "no")]) :
    ∃ make, ∀ phrases, ofNode resolver rule phrases = ofUnaryPattern rule make phrases := by
  simp only [List.mem_cons, Prod.mk.injEq, List.not_mem_nil, or_false] at h
  rcases h with ⟨rfl, -⟩ | ⟨rfl, -⟩
  · exact ⟨.existence, fun _ => rfl⟩
  · exact ⟨.absence, fun _ => rfl⟩

theorem ofNode_binary {word : String}
    (h : (rule, word) ∈
      [(Rule.response, "causes"), (.prevention, "forbids"), (.requirement, "requires")]) :
    ∃ make, ∀ phrases, ofNode resolver rule phrases = ofBinaryPattern rule make phrases := by
  simp only [List.mem_cons, Prod.mk.injEq, List.not_mem_nil, or_false] at h
  rcases h with ⟨rfl, -⟩ | ⟨rfl, -⟩ | ⟨rfl, -⟩
  · exact ⟨.response, fun _ => rfl⟩
  · exact ⟨.prevention, fun _ => rfl⟩
  · exact ⟨.requirement, fun _ => rfl⟩

/-- The time of a written bound is no less than zero, whatever its unit. -/
theorem ofNode_bound {unit : String}
    (h : (rule, unit) ∈ [(Rule.timeAmount, "ms"), (.timeAmount, "s"), (.frequency, "hz")]) :
    ∃ convert : String → String → Except SpecError Double,
      (∀ phrases, ofNode resolver rule phrases = ofBound rule convert phrases) ∧
      ∀ amount, IsNumber amount.toList →
        Concludes Double.IsUnsigned SpecError.Substantive (convert amount unit) := by
  simp only [List.mem_cons, Prod.mk.injEq, List.not_mem_nil, or_false] at h
  rcases h with ⟨rfl, rfl⟩ | ⟨rfl, rfl⟩ | ⟨rfl, rfl⟩
  · exact ⟨_, fun _ => rfl, fun _ hAmount => timeAmount_concludes hAmount (.inl rfl)⟩
  · exact ⟨_, fun _ => rfl, fun _ hAmount => timeAmount_concludes hAmount (.inr rfl)⟩
  · exact ⟨_, fun _ => rfl, fun _ hAmount => frequency_concludes hAmount⟩

/-- The phrase of a derived tree is of the sort of its nonterminal, or there is an error in what
the tree says. -/
theorem stands_of_derives {n : Nonterminal} {s t : List Char} (h : Derives n tree s t) :
    Stands n.sense (ofTree resolver tree) := by
  induction h with
  | @first l _ _ _ _ ih =>
    rw [l.sense_operand] at ih
    exact ih
  | @link l _ _ _ _ _ _ _ _ _ _ _ _ hOp _ _ _ ihLeft ihRight =>
    rw [l.sense_operand] at ihRight
    refine concludes_three ihLeft (concludes_leaf _) ihRight ?_
    rintro p _ q hp rfl hq
    rw [ofNode_level]
    exact stands_ofChain_linked hp (isSome_ofSymbol?_of_mem_operators hOp) hq
  | lone _ _ ih =>
    refine concludes_one ih fun p hp => ?_
    rw [ofNode_level]
    exact stands_ofChain_lone hp
  | chained _ _ ih => exact ih
  | quantified _ ih => exact concludes_one ih fun p hp => stands_ofChain_lone hp
  | quantification hWord _ _ _ _ _ _ _ _ _ _ _ ihDomain ihBody =>
    refine concludes_four (concludes_leaf _) (concludes_leaf _) ihDomain ihBody ?_
    rintro _ _ p q rfl rfl hp hq
    exact stands_ofQuantification (isSome_ofWord?_of_mem hWord) hp hq
  | negation _ _ _ ih =>
    refine concludes_two (concludes_leaf _) ih ?_
    rintro p q - hq
    exact stands_ofNegation (p := p) hq
  | atom _ ih => exact ih
  | value _ _ ih => exact concludes_one ih fun p hp => stands_ofChain_lone hp
  | comparison _ _ hOp _ _ _ ihLeft ihRight =>
    refine concludes_three ihLeft (concludes_leaf _) ihRight ?_
    rintro p _ q hp rfl hq
    exact stands_ofChain_linked hp (isSome_ofSymbol?_of_mem_comparisons hOp) hq
  | negativeNumber _ _ _ ih =>
    refine concludes_two (concludes_leaf _) ih ?_
    rintro p q - hq
    exact stands_ofNegativeNumber (p := p) hq
  | parenthesized _ _ _ _ _ ih => exact ih
  | numberConstant hWord _ =>
    obtain ⟨x, hx⟩ := ofConstant_isOk hWord
    refine stands_lexeme (stands_ofLiteral (P := fun _ => True) ?_)
    simp only [hx]
    trivial
  | boolean hWord _ =>
    refine stands_lexeme (stands_ofLiteral (P := fun _ => True) ?_)
    simp only [ofBoolean_eq_ok hWord]
    trivial
  | string hWord =>
    obtain ⟨-, inner, rfl, -⟩ := hWord
    refine stands_lexeme (stands_ofLiteral (P := fun _ => True) ?_)
    simp only [ofQuoted_eq_ok]
    trivial
  | number hWord =>
    exact stands_lexeme (stands_ofLiteral (ofNumber_concludes (by simpa using hWord.2)))
  | enumLiteral _ _ _ _ _ _ ih =>
    refine concludes_node (concludes_ofTrees_all (P := fun phrase => phrase.sense = .expression)
      ?_) ?_
    · intro tree hTree
      obtain ⟨part, hPart, rfl⟩ := List.mem_map.mp hTree
      exact ih part hPart
    · rintro phrases ⟨hLength, hAll⟩
      exact stands_ofEnumLiteral (List.ne_nil_of_length_pos (by simp [hLength])) hAll
  | rangeLiteral hLeft _ _ _ _ _ _ _ _ _ hRight _ ihLower ihUpper =>
    refine concludes_four (concludes_leaf _) ihLower ihUpper (concludes_leaf _) ?_
    rintro _ p q _ rfl hp hq rfl
    exact stands_ofRangeLiteral hLeft hp hq hRight
  | functionCall _ _ _ _ _ _ _ ih =>
    refine concludes_two (concludes_leaf _) ih ?_
    rintro _ q rfl hq
    exact stands_ofFunctionCall hq
  | referred _ ih => exact ih
  | variableReference _ _ => exact stands_lexeme stands_ofVariable
  | ownField _ => exact stands_lexeme stands_ofOwnField
  | fieldAccess _ _ _ ih =>
    refine concludes_two ih (concludes_leaf _) ?_
    rintro p _ hp rfl
    exact stands_ofFieldAccess hp
  | arrayAccess _ _ _ _ _ _ ihBase ihPosition =>
    exact concludes_two ihBase ihPosition fun _ _ hp hq => stands_ofArrayAccess hp hq
  | topic _ => exact stands_lexeme stands_ofTopicName
  | guard _ _ _ _ _ ih => exact concludes_one ih fun _ hp => stands_ofGuard hp
  | message _ ih => exact concludes_one ih fun _ hp => stands_ofMessage hp
  | messageAs _ _ _ _ _ ih =>
    refine concludes_two ih (concludes_leaf _) ?_
    rintro p _ hp rfl
    exact stands_ofMessage_as hp
  | event _ ih => exact concludes_one ih fun _ hp => stands_ofEvent hp
  | guardedEvent _ _ _ ihMessage ihGuard =>
    exact concludes_two ihMessage ihGuard fun _ _ hp hq => stands_ofEvent_guarded hp hq
  | activator _ ih => exact concludes_one ih fun _ hp => stands_ofDelimiter hp
  | terminator _ ih => exact concludes_one ih fun _ hp => stands_ofDelimiter hp
  | globalScope _ => rfl
  | afterScope _ _ _ _ ih => exact concludes_one ih fun _ hp => stands_ofAfterUntil hp
  | afterUntilScope _ _ _ _ _ _ _ ihStart ihStop =>
    exact concludes_two ihStart ihStop fun _ _ hp hq => stands_ofAfterUntil_both hp hq
  | untilScope _ _ _ ih => exact concludes_one ih fun _ hp => stands_ofUntil hp
  | bound _ _ _ hAmount _ hUnit _ =>
    obtain ⟨convert, hConvert, hTime⟩ := ofNode_bound hUnit
    refine concludes_two (concludes_leaf _) (concludes_leaf _) ?_
    rintro _ _ rfl rfl
    rw [hConvert]
    exact stands_ofBound (hTime _ (by simpa using hAmount.2))
  | unaryPattern hRule _ _ _ ih =>
    obtain ⟨make, hMake⟩ := ofNode_unary hRule
    refine concludes_one ih fun _ hp => ?_
    rw [hMake]
    exact stands_ofUnaryPattern hp
  | boundedUnaryPattern hRule _ _ _ _ ih ihLimit =>
    obtain ⟨make, hMake⟩ := ofNode_unary hRule
    refine concludes_two ih ihLimit fun _ _ hp hq => ?_
    rw [hMake]
    exact stands_ofUnaryPattern_bounded hp hq
  | binaryPattern hRule _ _ _ _ _ ihLeft ihRight =>
    obtain ⟨make, hMake⟩ := ofNode_binary hRule
    refine concludes_two ihLeft ihRight fun _ _ hp hq => ?_
    rw [hMake]
    exact stands_ofBinaryPattern hp hq
  | boundedBinaryPattern hRule _ _ _ _ _ _ ihLeft ihRight ihLimit =>
    obtain ⟨make, hMake⟩ := ofNode_binary hRule
    refine concludes_three ihLeft ihRight ihLimit fun _ _ _ hp hq hr => ?_
    rw [hMake]
    exact stands_ofBinaryPattern_bounded hp hq hr
  | property _ _ _ _ _ _ _ ihScope ihPattern =>
    exact concludes_two ihScope ihPattern fun _ _ hp hq => stands_ofProperty hp hq
  | assumption _ _ _ _ _ ihName ihCondition =>
    exact concludes_two ihName ihCondition fun _ _ hp hq => stands_ofAssumption hp hq
  | topLevelCondition _ _ _ ih =>
    exact concludes_one ih fun _ hp => stands_ofTopLevelCondition hp

end Phrase

/-! ## Texts -/

/-- The sort of phrases that the trees of whole texts stand for. -/
def Form.sense : Form → Sense
  | property => .property
  | assumption => .assumption
  | predicate => .expression

/-- An error that a text can cause: no tree that was read has another shape than expected. -/
def SpecError.Textual : SpecError → Prop
  | malformed _ => True
  | e => e.Substantive

section
variable {form : Form} {text : String} {tree : SyntaxTree}

theorem SpecError.Substantive.textual {e : SpecError} (h : e.Substantive) : e.Textual := by
  cases e with
  | malformed => trivial
  | binding => trivial
  | typing => exact h
  | shape => exact h

theorem stands_of_ofText (resolver : Option Resolver) (h : SyntaxTree.ofText form text = .ok tree) :
    Phrase.Stands form.sense (Phrase.ofTree resolver tree) := by
  have hStands : Phrase.Stands form.nonterminal.sense (Phrase.ofTree resolver tree) :=
    Phrase.stands_of_derives (SyntaxTree.derives_of_ofText h)
  cases form <;> exact hStands

/-- A whole text is read in two steps, of which the first refuses what is not in the language. -/
theorem concludes_readTree {α : Type} {read : SyntaxTree → Except SpecError α}
    (h : ∀ tree, SyntaxTree.ofText form text = .ok tree →
      Concludes (fun _ => True) SpecError.Substantive (read tree)) :
    Concludes (fun _ => True) SpecError.Textual (readTree form text >>= read) := by
  unfold readTree
  cases hTree : SyntaxTree.ofText form text with
  | error e => trivial
  | ok tree =>
    cases hRead : read tree with
    | ok value => simp [Except.mapError, hRead, Concludes]
    | error e =>
      have hError := (concludes_iff.mp (h tree hTree)).2 e hRead
      simpa [Except.mapError, hRead, Concludes] using hError.textual

end

/-- Whatever a text says, the tree that is read from it has a phrase of the sort asked for, or
breaks a rule of binding or of typing; no production, lexeme or number of operands is ever other
than the builder of its phrase expects. -/
theorem ofText_keeps_contract (resolver : Option Resolver) (text : String) :
    (∀ form tree, SyntaxTree.ofText form text = .ok tree →
      Phrase.Stands form.sense (Phrase.ofTree resolver tree)) ∧
    Concludes (fun _ => True) SpecError.Textual (Property.ofText resolver text) ∧
    Concludes (fun _ => True) SpecError.Textual (Assumption.ofText resolver text) ∧
    Concludes (fun _ => True) SpecError.Textual (Expr.ofText resolver text) := by
  refine ⟨fun form tree h => stands_of_ofText resolver h, ?_, ?_, ?_⟩
  · refine concludes_readTree fun tree h => concludes_bind (stands_of_ofText resolver h) ?_
    intro phrase hSense
    obtain ⟨property, rfl⟩ := Phrase.eq_property_of_sense hSense
    trivial
  · refine concludes_readTree fun tree h => concludes_bind (stands_of_ofText resolver h) ?_
    intro phrase hSense
    obtain ⟨assumption, rfl⟩ := Phrase.eq_assumption_of_sense hSense
    trivial
  · refine concludes_readTree fun tree h => concludes_bind (stands_of_ofText resolver h) ?_
    intro phrase hSense
    obtain ⟨e, ty, rfl⟩ := Phrase.eq_expr_of_sense hSense
    trivial

theorem quantified_comparison_keeps_contract :
    ∃ tree, SyntaxTree.ofText .predicate "forall i in [0 to len(xs)]: (-xs[@i] < 2.5)" = .ok tree ∧
      Phrase.Stands .expression (Phrase.ofTree none tree) := by
  have hRead : (SyntaxTree.ofText .predicate
      "forall i in [0 to len(xs)]: (-xs[@i] < 2.5)").isOk = true := by decide +kernel
  cases hTree : SyntaxTree.ofText .predicate "forall i in [0 to len(xs)]: (-xs[@i] < 2.5)" with
  | error e => simp [hTree, Except.isOk, Except.toBool] at hRead
  | ok tree => exact ⟨tree, rfl, (ofText_keeps_contract none _).1 .predicate tree hTree⟩

end TopicSpec
