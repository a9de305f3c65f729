import TopicSpec.Proofs.Grammar.Yield
import TopicSpec.Proofs.Phrase.Written

/-! # The shapes of productions

A production has so many places, and in each of them a lexeme of one kind or a part that stands for
phrases of one sort. A tree that has a phrase has the shape of its production at every node, except
that nothing is asked of what stands in the place of a sign. -/

namespace TopicSpec
set_option autoImplicit false

/-- What stands in one place of a production: a lexeme of some kind, or a part of some sort. -/
inductive Constituent where
  | lexeme (kind : TokenKind)
  | part (sense : Sense)
  deriving DecidableEq

namespace Rule

/-- The sort of phrases that the nodes of a production stand for. -/
def sense : Rule → Sense
  | property => .property
  | assumption => .assumption
  | globalScope | afterUntil | untilScope => .scope
  | activator | terminator | event => .event
  | existence | absence | response | prevention | requirement => .pattern
  | message => .message
  | guard => .predicate
  | frequency | timeAmount => .duration
  | topicName => .topic
  | topLevelCondition | condition | disjunction | conjunction | negation | quantification
  | atomicCondition | functionCall | expr | term | factor | negativeNumber | numberConstant
  | enumLiteral | rangeLiteral | variableReference | ownField | fieldAccess | arrayAccess
  | boolean | string | number => .expression

/-- The places of a production, once for each choice of its optional parts. A set has as many
places as members, so it is not in the table. -/
def shapes : Rule → List (List Constituent)
  | property => [[.part .scope, .part .pattern]]
  | assumption => [[.part .topic, .part .predicate]]
  | globalScope => [[]]
  | afterUntil => [[.part .event], [.part .event, .part .event]]
  | untilScope | activator | terminator => [[.part .event]]
  | existence | absence => [[.part .event], [.part .event, .part .duration]]
  | response | prevention | requirement =>
    [[.part .event, .part .event], [.part .event, .part .event, .part .duration]]
  | frequency | timeAmount => [[.lexeme .number, .lexeme .unit]]
  | event => [[.part .message], [.part .message, .part .predicate]]
  | message => [[.part .topic], [.part .topic, .lexeme .name]]
  | topicName => [[.lexeme .topicName]]
  | guard | topLevelCondition => [[.part .expression]]
  | condition | disjunction | conjunction | atomicCondition | expr | term | factor =>
    [[.part .expression], [.part .expression, .lexeme .operator, .part .expression]]
  | negation | negativeNumber => [[.lexeme .operator, .part .expression]]
  | quantification =>
    [[.lexeme .quantifier, .lexeme .name, .part .expression, .part .expression]]
  | functionCall => [[.lexeme .name, .part .expression]]
  | enumLiteral => []
  | rangeLiteral =>
    [[.lexeme .leftDelimiter, .part .expression, .part .expression, .lexeme .rightDelimiter]]
  | variableReference | ownField => [[.lexeme .name]]
  | fieldAccess => [[.part .expression, .lexeme .name]]
  | arrayAccess => [[.part .expression, .part .expression]]
  | number => [[.lexeme .number]]
  | boolean => [[.lexeme .boolean]]
  | string => [[.lexeme .string]]
  | numberConstant => [[.lexeme .constant]]

/-- The production has such children. -/
def Takes (rule : Rule) (children : List Constituent) : Prop :=
  children ∈ rule.shapes ∨
    rule = .enumLiteral ∧ children ≠ [] ∧ ∀ child ∈ children, child = .part .expression

instance (rule : Rule) (children : List Constituent) : Decidable (rule.Takes children) :=
  inferInstanceAs (Decidable (_ ∨ _))

theorem takes_only {rule : Rule} {shape children : List Constituent} (h : rule.shapes = [shape])
    (hShape : children = shape) : rule.Takes children :=
  .inl (h ▸ List.mem_singleton.mpr hShape)

/-- The sign in front of the operand of the production, if it has one. -/
def sign? : Rule → Option String
  | negation => some "not"
  | negativeNumber => some "-"
  | _ => none

end Rule

namespace SyntaxTree

def constituent : SyntaxTree → Constituent
  | leaf token => .lexeme token.kind
  | node rule _ => .part rule.sense

/-- The node has the children of its production. -/
def Shaped : SyntaxTree → Prop
  | leaf _ => True
  | node rule children => rule.Takes (children.map constituent)

instance : (tree : SyntaxTree) → Decidable tree.Shaped
  | leaf _ => inferInstanceAs (Decidable True)
  | node rule children => inferInstanceAs (Decidable (rule.Takes (children.map constituent)))

/-- The operand has something else than a sign in front of it. -/
def Missigned (tree : SyntaxTree) : Prop :=
  ∃ rule word found operand, rule.sign? = some word ∧ tree = .node rule [found, operand] ∧
    found.constituent ≠ .lexeme .operator ∧ operand.constituent = .part .expression

end SyntaxTree

namespace Phrase

def constituent : Phrase → Constituent
  | token t => .lexeme t.kind
  | phrase => .part phrase.sense

variable {resolver : Option Resolver} {rule : Rule} {p phrase : Phrase} {phrases : List Phrase}

/-! ## What a part has been taken for -/

theorem constituent_of_toExpr {found : Expr × Ty} (h : p.toExpr rule = .ok found) :
    p.constituent = .part .expression := by
  rw [eq_of_toExpr h]
  rfl

theorem constituent_of_toToken {kind : TokenKind} {text : String}
    (h : p.toToken rule kind = .ok text) : p.constituent = .lexeme kind := by
  cases p with
  | token found =>
    simp only [toToken] at h
    split at h
    case isTrue hKind => exact congrArg Constituent.lexeme hKind
    case isFalse => cases h
  | _ => cases h

theorem constituent_of_toEvent {found : Event} (h : p.toEvent rule = .ok found) :
    p.constituent = .part .event := by
  cases p <;> cases h
  rfl

theorem constituent_of_toSeconds {found : Double} (h : p.toSeconds rule = .ok found) :
    p.constituent = .part .duration := by
  cases p <;> cases h
  rfl

theorem constituent_of_toGuard {found : Expr} (h : p.toGuard rule = .ok found) :
    p.constituent = .part .predicate := by
  cases p <;> cases h
  rfl

theorem constituent_of_toTopic {found : String} (h : p.toTopic rule = .ok found) :
    p.constituent = .part .topic := by
  cases p <;> cases h
  rfl

theorem constituent_of_typed {e : Expr} {types : List Ty} (h : typed e types = .ok phrase) :
    phrase.constituent = .part .expression := by
  obtain ⟨ty, -, hPure⟩ := ok_of_bind h
  obtain rfl := Except.ok.inj hPure
  rfl

/-! ## Expressions -/

theorem children_of_ofChain (h : ofChain rule phrases = .ok phrase) :
    phrases.map constituent ∈
        [[.part .expression], [.part .expression, .lexeme .operator, .part .expression]] ∧
      phrase.constituent = .part .expression := by
  unfold ofChain at h
  split at h
  · obtain ⟨operand, hOperand, h⟩ := ok_of_bind h
    obtain rfl := Except.ok.inj h
    exact ⟨by simp [constituent_of_toExpr hOperand], rfl⟩
  · obtain ⟨symbol, hSymbol, h⟩ := ok_of_bind h
    split at h
    · cases h
    · obtain ⟨left, hLeft, h⟩ := ok_of_bind h
      obtain ⟨right, hRight, h⟩ := ok_of_bind h
      simp [constituent_of_toToken hSymbol, constituent_of_toExpr hLeft,
        constituent_of_toExpr hRight, constituent_of_typed h]
  · cases h

/-- Nothing is asked of what stands in the place of the sign. -/
theorem children_of_ofNegation (h : ofNegation rule phrases = .ok phrase) :
    (∃ sign, phrases.map constituent = [sign, .part .expression]) ∧
      phrase.constituent = .part .expression := by
  unfold ofNegation at h
  split at h
  · rename_i sign operand
    obtain ⟨_, hOperand, h⟩ := ok_of_bind h
    exact ⟨⟨sign.constituent, by simp [constituent_of_toExpr hOperand]⟩, constituent_of_typed h⟩
  · cases h

theorem children_of_ofNegativeNumber (h : ofNegativeNumber rule phrases = .ok phrase) :
    (∃ sign, phrases.map constituent = [sign, .part .expression]) ∧
      phrase.constituent = .part .expression := by
  unfold ofNegativeNumber at h
  split at h
  · rename_i sign operand
    obtain ⟨_, hOperand, h⟩ := ok_of_bind h
    refine ⟨⟨sign.constituent, by simp [constituent_of_toExpr hOperand]⟩, ?_⟩
    dsimp only at h
    split at h
    · exact constituent_of_typed h
    · exact constituent_of_typed h
  · cases h

theorem children_of_ofQuantification (h : ofQuantification rule phrases = .ok phrase) :
    phrases.map constituent =
        [.lexeme .quantifier, .lexeme .name, .part .expression, .part .expression] ∧
      phrase.constituent = .part .expression := by
  unfold ofQuantification at h
  split at h
  · obtain ⟨word, hWord, h⟩ := ok_of_bind h
    split at h
    · cases h
    · obtain ⟨name, hName, h⟩ := ok_of_bind h
      obtain ⟨domain, hDomain, h⟩ := ok_of_bind h
      obtain ⟨body, hBody, h⟩ := ok_of_bind h
      simp [constituent_of_toToken hWord, constituent_of_toToken hName,
        constituent_of_toExpr hDomain, constituent_of_toExpr hBody, constituent_of_typed h]
  · cases h

theorem children_of_ofFunctionCall (h : ofFunctionCall rule phrases = .ok phrase) :
    phrases.map constituent = [.lexeme .name, .part .expression] ∧
      phrase.constituent = .part .expression := by
  unfold ofFunctionCall at h
  split at h
  · obtain ⟨function, hFunction, h⟩ := ok_of_bind h
    obtain ⟨argument, hArgument, h⟩ := ok_of_bind h
    simp [constituent_of_toToken hFunction, constituent_of_toExpr hArgument,
      constituent_of_typed h]
  · cases h

theorem children_of_ofEnumLiteral (h : ofEnumLiteral rule phrases = .ok phrase) :
    (phrases.map constituent ≠ [] ∧
        ∀ child ∈ phrases.map constituent, child = .part .expression) ∧
      phrase.constituent = .part .expression := by
  unfold ofEnumLiteral at h
  split at h
  · cases h
  · rename_i hNonempty
    obtain ⟨members, hMembers, h⟩ := ok_of_bind h
    refine ⟨⟨?_, fun child hChild => ?_⟩, constituent_of_typed h⟩
    · simpa using hNonempty
    · rw [of_mapM_toExpr hMembers, List.map_map] at hChild
      obtain ⟨member, -, rfl⟩ := List.mem_map.mp hChild
      rfl

theorem children_of_ofRangeLiteral (h : ofRangeLiteral rule phrases = .ok phrase) :
    phrases.map constituent =
        [.lexeme .leftDelimiter, .part .expression, .part .expression, .lexeme .rightDelimiter] ∧
      phrase.constituent = .part .expression := by
  unfold ofRangeLiteral at h
  split at h
  · obtain ⟨left, hLeft, h⟩ := ok_of_bind h
    obtain ⟨_, -, h⟩ := ok_of_bind h
    obtain ⟨right, hRight, h⟩ := ok_of_bind h
    obtain ⟨_, -, h⟩ := ok_of_bind h
    obtain ⟨lower, hLower, h⟩ := ok_of_bind h
    obtain ⟨upper, hUpper, h⟩ := ok_of_bind h
    simp [constituent_of_toToken hLeft, constituent_of_toToken hRight,
      constituent_of_toExpr hLower, constituent_of_toExpr hUpper, constituent_of_typed h]
  · cases h

theorem children_of_ofVariable (h : ofVariable rule phrases = .ok phrase) :
    phrases.map constituent = [.lexeme .name] ∧ phrase.constituent = .part .expression := by
  unfold ofVariable at h
  split at h
  · obtain ⟨name, hName, h⟩ := ok_of_bind h
    simp [constituent_of_toToken hName, constituent_of_typed h]
  · cases h

theorem children_of_ofOwnField (h : ofOwnField rule phrases = .ok phrase) :
    phrases.map constituent = [.lexeme .name] ∧ phrase.constituent = .part .expression := by
  unfold ofOwnField at h
  split at h
  · obtain ⟨name, hName, h⟩ := ok_of_bind h
    simp [constituent_of_toToken hName, constituent_of_typed h]
  · cases h

theorem children_of_ofFieldAccess (h : ofFieldAccess rule phrases = .ok phrase) :
    phrases.map constituent = [.part .expression, .lexeme .name] ∧
      phrase.constituent = .part .expression := by
  unfold ofFieldAccess at h
  split at h
  · obtain ⟨base, hBase, h⟩ := ok_of_bind h
    obtain ⟨name, hName, h⟩ := ok_of_bind h
    simp [constituent_of_toExpr hBase, constituent_of_toToken hName, constituent_of_typed h]
  · cases h

theorem children_of_ofArrayAccess (h : ofArrayAccess rule phrases = .ok phrase) :
    phrases.map constituent = [.part .expression, .part .expression] ∧
      phrase.constituent = .part .expression := by
  unfold ofArrayAccess at h
  split at h
  · obtain ⟨base, hBase, h⟩ := ok_of_bind h
    obtain ⟨position, hPosition, h⟩ := ok_of_bind h
    simp [constituent_of_toExpr hBase, constituent_of_toExpr hPosition, constituent_of_typed h]
  · cases h

theorem children_of_ofLiteral {kind : TokenKind} {read : String → Except SpecError Literal}
    (h : ofLiteral rule kind read phrases = .ok phrase) :
    phrases.map constituent = [.lexeme kind] ∧ phrase.constituent = .part .expression := by
  unfold ofLiteral at h
  split at h
  · obtain ⟨lexeme, hLexeme, h⟩ := ok_of_bind h
    obtain ⟨_, -, h⟩ := ok_of_bind h
    simp [constituent_of_toToken hLexeme, constituent_of_typed h]
  · cases h

/-! ## Events, scopes and patterns -/

theorem children_of_ofTopicName (h : ofTopicName rule phrases = .ok phrase) :
    phrases.map constituent = [.lexeme .topicName] ∧ phrase.constituent = .part .topic := by
  unfold ofTopicName at h
  split at h
  · obtain ⟨name, hName, h⟩ := ok_of_bind h
    obtain rfl := Except.ok.inj h
    exact ⟨by simp [constituent_of_toToken hName], rfl⟩
  · cases h

theorem children_of_ofGuard (h : ofGuard rule phrases = .ok phrase) :
    phrases.map constituent = [.part .expression] ∧ phrase.constituent = .part .predicate := by
  unfold ofGuard at h
  split at h
  · obtain ⟨condition, hCondition, h⟩ := ok_of_bind h
    obtain ⟨_, -, h⟩ := ok_of_bind h
    obtain rfl := Except.ok.inj h
    exact ⟨by simp [constituent_of_toExpr hCondition], rfl⟩
  · cases h

theorem children_of_ofMessage (h : ofMessage rule phrases = .ok phrase) :
    phrases.map constituent ∈ [[.part .topic], [.part .topic, .lexeme .name]] ∧
      phrase.constituent = .part .message := by
  unfold ofMessage at h
  split at h
  · obtain ⟨name, hName, h⟩ := ok_of_bind h
    obtain rfl := Except.ok.inj h
    exact ⟨by simp [constituent_of_toTopic hName], rfl⟩
  · obtain ⟨name, hName, h⟩ := ok_of_bind h
    obtain ⟨word, hWord, h⟩ := ok_of_bind h
    obtain rfl := Except.ok.inj h
    exact ⟨by simp [constituent_of_toTopic hName, constituent_of_toToken hWord], rfl⟩
  · cases h

theorem children_of_ofEvent (h : ofEvent rule phrases = .ok phrase) :
    phrases.map constituent ∈ [[.part .message], [.part .message, .part .predicate]] ∧
      phrase.constituent = .part .event := by
  unfold ofEvent at h
  split at h
  · obtain rfl := Except.ok.inj h
    exact ⟨by simp [constituent, sense], rfl⟩
  · obtain ⟨condition, hCondition, h⟩ := ok_of_bind h
    obtain rfl := Except.ok.inj h
    refine ⟨?_, rfl⟩
    rw [List.map_cons, List.map_cons, constituent_of_toGuard hCondition]
    exact List.mem_cons_of_mem _ List.mem_cons_self
  · cases h

theorem children_of_ofDelimiter (h : ofDelimiter rule phrases = .ok phrase) :
    phrases.map constituent = [.part .event] ∧ phrase.constituent = .part .event := by
  unfold ofDelimiter at h
  split at h
  · obtain ⟨event, hEvent, h⟩ := ok_of_bind h
    obtain rfl := Except.ok.inj h
    exact ⟨by simp [constituent_of_toEvent hEvent], rfl⟩
  · cases h

theorem children_of_ofGlobalScope (h : ofGlobalScope rule phrases = .ok phrase) :
    phrases.map constituent = [] ∧ phrase.constituent = .part .scope := by
  unfold ofGlobalScope at h
  split at h
  · obtain rfl := Except.ok.inj h
    exact ⟨rfl, rfl⟩
  · cases h

theorem children_of_ofAfterUntil (h : ofAfterUntil rule phrases = .ok phrase) :
    phrases.map constituent ∈ [[.part .event], [.part .event, .part .event]] ∧
      phrase.constituent = .part .scope := by
  unfold ofAfterUntil at h
  split at h
  · obtain ⟨activator, hActivator, h⟩ := ok_of_bind h
    obtain rfl := Except.ok.inj h
    exact ⟨by simp [constituent_of_toEvent hActivator], rfl⟩
  · obtain ⟨activator, hActivator, h⟩ := ok_of_bind h
    obtain ⟨terminator, hTerminator, h⟩ := ok_of_bind h
    obtain rfl := Except.ok.inj h
    exact ⟨by simp [constituent_of_toEvent hActivator, constituent_of_toEvent hTerminator], rfl⟩
  · cases h

theorem children_of_ofUntil (h : ofUntil rule phrases = .ok phrase) :
    phrases.map constituent = [.part .event] ∧ phrase.constituent = .part .scope := by
  unfold ofUntil at h
  split at h
  · obtain ⟨terminator, hTerminator, h⟩ := ok_of_bind h
    obtain rfl := Except.ok.inj h
    exact ⟨by simp [constituent_of_toEvent hTerminator], rfl⟩
  · cases h

theorem children_of_ofBound {convert : String → String → Except SpecError Double}
    (h : ofBound rule convert phrases = .ok phrase) :
    phrases.map constituent = [.lexeme .number, .lexeme .unit] ∧
      phrase.constituent = .part .duration := by
  unfold ofBound at h
  split at h
  · obtain ⟨amount, hAmount, h⟩ := ok_of_bind h
    obtain ⟨unit, hUnit, h⟩ := ok_of_bind h
    obtain ⟨_, -, h⟩ := ok_of_bind h
    obtain rfl := Except.ok.inj h
    exact ⟨by simp [constituent_of_toToken hAmount, constituent_of_toToken hUnit], rfl⟩
  · cases h

theorem constituents_of_mapM_toEvent {events : List Event}
    (h : phrases.mapM (toEvent rule) = .ok events) :
    phrases.map constituent = List.replicate events.length (.part .event) := by
  induction phrases generalizing events with
  | nil =>
    obtain rfl := Except.ok.inj h
    rfl
  | cons p phrases ih =>
    rw [List.mapM_cons] at h
    obtain ⟨event, hEvent, h⟩ := ok_of_bind h
    obtain ⟨more, hMore, h⟩ := ok_of_bind h
    obtain rfl := Except.ok.inj h
    rw [List.map_cons, constituent_of_toEvent hEvent, ih hMore, List.length_cons,
      List.replicate_succ]

/-- Behind the events of a pattern there is a bound or nothing. -/
theorem children_of_eventsAndBound {count : Nat} {events : List Event} {maxTime : Double}
    (h : eventsAndBound rule count phrases = .ok (events, maxTime)) :
    phrases.map constituent ∈ [List.replicate events.length (.part .event),
      List.replicate events.length (.part .event) ++ [.part .duration]] := by
  unfold eventsAndBound at h
  by_cases hMore : count < phrases.length
  · obtain ⟨last, hLast⟩ : ∃ last, phrases.getLast? = some last :=
      ⟨_, List.getLast?_eq_some_getLast (List.ne_nil_of_length_pos (Nat.zero_lt_of_lt hMore))⟩
    simp only [if_pos hMore, hLast] at h
    obtain ⟨_, hBound, h⟩ := ok_of_bind h
    obtain ⟨_, hEvents, h⟩ := ok_of_bind h
    obtain ⟨rfl, -⟩ := Prod.mk.inj (Except.ok.inj h)
    rw [← List.dropLast_append_getLast? last hLast, List.map_append,
      constituents_of_mapM_toEvent hEvents]
    simp [constituent_of_toSeconds hBound]
  · simp only [if_neg hMore] at h
    obtain ⟨_, -, h⟩ := ok_of_bind h
    obtain ⟨_, hEvents, h⟩ := ok_of_bind h
    obtain ⟨rfl, -⟩ := Prod.mk.inj (Except.ok.inj h)
    simp [constituents_of_mapM_toEvent hEvents]

theorem children_of_ofUnaryPattern {make : Event → Double → Pattern}
    (h : ofUnaryPattern rule make phrases = .ok phrase) :
    phrases.map constituent ∈ [[.part .event], [.part .event, .part .duration]] ∧
      phrase.constituent = .part .pattern := by
  obtain ⟨parts, hParts, h⟩ := ok_of_bind h
  split at h
  · obtain rfl := Except.ok.inj h
    exact ⟨children_of_eventsAndBound hParts, rfl⟩
  · cases h

theorem children_of_ofBinaryPattern {make : Event → Event → Double → Pattern}
    (h : ofBinaryPattern rule make phrases = .ok phrase) :
    phrases.map constituent ∈
        [[.part .event, .part .event], [.part .event, .part .event, .part .duration]] ∧
      phrase.constituent = .part .pattern := by
  obtain ⟨parts, hParts, h⟩ := ok_of_bind h
  split at h
  · obtain rfl := Except.ok.inj h
    exact ⟨children_of_eventsAndBound hParts, rfl⟩
  · cases h

/-! ## Whole texts -/

theorem children_of_ofProperty (h : ofProperty resolver rule phrases = .ok phrase) :
    phrases.map constituent = [.part .scope, .part .pattern] ∧
      phrase.constituent = .part .property := by
  unfold ofProperty at h
  split at h
  · obtain ⟨_, -, h⟩ := ok_of_bind h
    obtain rfl := Except.ok.inj h
    exact ⟨rfl, rfl⟩
  · cases h
  · cases h

theorem children_of_ofAssumption (h : ofAssumption resolver rule phrases = .ok phrase) :
    phrases.map constituent = [.part .topic, .part .predicate] ∧
      phrase.constituent = .part .assumption := by
  unfold ofAssumption at h
  split at h
  · obtain ⟨name, hName, h⟩ := ok_of_bind h
    obtain ⟨condition, hCondition, h⟩ := ok_of_bind h
    obtain ⟨_, -, h⟩ := ok_of_bind h
    obtain rfl := Except.ok.inj h
    exact ⟨by simp [constituent_of_toTopic hName, constituent_of_toGuard hCondition], rfl⟩
  · cases h

theorem children_of_ofTopLevelCondition
    (h : ofTopLevelCondition resolver rule phrases = .ok phrase) :
    phrases.map constituent = [.part .expression] ∧ phrase.constituent = .part .expression := by
  unfold ofTopLevelCondition at h
  split at h
  · obtain ⟨condition, hCondition, h⟩ := ok_of_bind h
    obtain ⟨_, -, h⟩ := ok_of_bind h
    obtain ⟨_, -, h⟩ := ok_of_bind h
    obtain rfl := Except.ok.inj h
    exact ⟨by simp [constituent_of_toExpr hCondition], rfl⟩
  · cases h

/-! ## Nodes -/

theorem children_of_ofNode (h : ofNode resolver rule phrases = .ok phrase) :
    (rule.Takes (phrases.map constituent) ∨
      rule.sign?.isSome ∧ ∃ found, phrases.map constituent = [found, .part .expression]) ∧
    phrase.constituent = .part rule.sense := by
  have only {shape : List Constituent} {sense : Sense} (hRule : rule.shapes = [shape])
      (hFound : phrases.map constituent = shape ∧ phrase.constituent = .part sense) :
      (rule.Takes (phrases.map constituent) ∨
        rule.sign?.isSome ∧ ∃ found, phrases.map constituent = [found, .part .expression]) ∧
      phrase.constituent = .part sense :=
    hFound.imp_left fun hPlaces => .inl (Rule.takes_only hRule hPlaces)
  cases rule with
  | negation => exact (children_of_ofNegation h).imp_left fun hPlaces => .inr ⟨rfl, hPlaces⟩
  | negativeNumber =>
    exact (children_of_ofNegativeNumber h).imp_left fun hPlaces => .inr ⟨rfl, hPlaces⟩
  | enumLiteral =>
    exact (children_of_ofEnumLiteral h).imp_left fun hPlaces => .inl (.inr ⟨rfl, hPlaces⟩)
  | afterUntil => exact (children_of_ofAfterUntil h).imp_left fun hPlaces => .inl (.inl hPlaces)
  | existence | absence =>
    exact (children_of_ofUnaryPattern h).imp_left fun hPlaces => .inl (.inl hPlaces)
  | response | prevention | requirement =>
    exact (children_of_ofBinaryPattern h).imp_left fun hPlaces => .inl (.inl hPlaces)
  | event => exact (children_of_ofEvent h).imp_left fun hPlaces => .inl (.inl hPlaces)
  | message => exact (children_of_ofMessage h).imp_left fun hPlaces => .inl (.inl hPlaces)
  | condition | disjunction | conjunction | atomicCondition | expr | term | factor =>
    exact (children_of_ofChain h).imp_left fun hPlaces => .inl (.inl hPlaces)
  | property => exact only rfl (children_of_ofProperty h)
  | assumption => exact only rfl (children_of_ofAssumption h)
  | topLevelCondition => exact only rfl (children_of_ofTopLevelCondition h)
  | globalScope => exact only rfl (children_of_ofGlobalScope h)
  | untilScope => exact only rfl (children_of_ofUntil h)
  | activator | terminator => exact only rfl (children_of_ofDelimiter h)
  | frequency | timeAmount => exact only rfl (children_of_ofBound h)
  | guard => exact only rfl (children_of_ofGuard h)
  | topicName => exact only rfl (children_of_ofTopicName h)
  | quantification => exact only rfl (children_of_ofQuantification h)
  | functionCall => exact only rfl (children_of_ofFunctionCall h)
  | rangeLiteral => exact only rfl (children_of_ofRangeLiteral h)
  | variableReference => exact only rfl (children_of_ofVariable h)
  | ownField => exact only rfl (children_of_ofOwnField h)
  | fieldAccess => exact only rfl (children_of_ofFieldAccess h)
  | arrayAccess => exact only rfl (children_of_ofArrayAccess h)
  | number | boolean | string | numberConstant => exact only rfl (children_of_ofLiteral h)

/-- What is in the place of the sign has no part in the phrase. -/
theorem ofNode_sign {word : String} (h : rule.sign? = some word) (p q : Phrase)
    (phrases : List Phrase) :
    ofNode resolver rule (p :: phrases) = ofNode resolver rule (q :: phrases) := by
  cases rule with
  | negation | negativeNumber =>
    match phrases with
    | [] | [_] | _ :: _ :: _ => rfl
  | _ => cases h

/-! ## Trees -/

variable {tree part : SyntaxTree} {children : List SyntaxTree}

theorem constituent_of_ofTree (h : ofTree resolver tree = .ok phrase) :
    phrase.constituent = tree.constituent := by
  cases tree with
  | leaf token =>
    obtain rfl := Except.ok.inj h
    rfl
  | node rule children =>
    obtain ⟨phrases, -, hNode⟩ := ok_of_bind h
    exact (children_of_ofNode hNode).2

theorem constituents_of_ofTrees (h : ofTrees resolver children = .ok phrases) :
    phrases.map constituent = children.map SyntaxTree.constituent := by
  have hAll := forall₂_of_ofTrees h
  clear h
  induction hAll with
  | nil => rfl
  | cons hHead _ ih => rw [List.map_cons, List.map_cons, constituent_of_ofTree hHead, ih]

theorem exists_phrase_of_mem (h : ofTrees resolver children = .ok phrases)
    (hTree : tree ∈ children) : ∃ phrase, ofTree resolver tree = .ok phrase := by
  have hAll := forall₂_of_ofTrees h
  clear h
  induction hAll with
  | nil => cases hTree
  | cons hHead _ ih =>
    rcases List.mem_cons.mp hTree with rfl | hTail
    · exact ⟨_, hHead⟩
    · exact ih hTail

theorem exists_phrase_of_has (h : ofTree resolver tree = .ok phrase) (hPart : tree.Has part) :
    ∃ found, ofTree resolver part = .ok found := by
  induction hPart generalizing phrase with
  | self => exact ⟨phrase, h⟩
  | inside hChild _ ih =>
    obtain ⟨phrases, hChildren, -⟩ := ok_of_bind h
    obtain ⟨_, hFound⟩ := exists_phrase_of_mem hChildren hChild
    exact ih hFound

theorem shaped_of_ofTree (h : ofTree resolver tree = .ok phrase) :
    tree.Shaped ∨ tree.Missigned := by
  cases tree with
  | leaf token => exact .inl trivial
  | node rule children =>
    obtain ⟨phrases, hChildren, hNode⟩ := ok_of_bind h
    have hPlaces := (children_of_ofNode hNode).1
    rw [constituents_of_ofTrees hChildren] at hPlaces
    rcases hPlaces with hTakes | ⟨hSign, found, hFound⟩
    · exact .inl hTakes
    obtain ⟨word, hWord⟩ := Option.isSome_iff_exists.mp hSign
    by_cases hOperator : found = .lexeme .operator
    · left
      subst hOperator
      cases rule with
      | negation | negativeNumber => exact Rule.takes_only rfl hFound
      | _ => cases hWord
    · right
      obtain ⟨sign, _, rfl, hHead, hTail⟩ := List.map_eq_cons_iff.mp hFound
      obtain ⟨operand, _, rfl, hOperand, hNil⟩ := List.map_eq_cons_iff.mp hTail
      obtain rfl := List.map_eq_nil_iff.mp hNil
      exact ⟨rule, word, sign, operand, hWord, rfl, hHead ▸ hOperator, hOperand⟩

theorem ofTree_sign {word : String} {sign operand : SyntaxTree} (hSign : rule.sign? = some word)
    (h : ofTree resolver sign = .ok p) :
    ofTree resolver (.node rule [sign, operand]) =
      ofTree resolver (.node rule [.leaf ⟨.operator, word⟩, operand]) := by
  simp only [ofTree, ofTrees, h, ok_bind, bind_assoc, pure_bind]
  exact congrArg _ (funext fun _ => ofNode_sign hSign _ _ _)

/-- Every node of a tree that has a phrase has the children of its production, but in the place of a
sign there may be anything that has a phrase: it counts for the sign. -/
theorem tree_has_its_shape (h : ofTree resolver tree = .ok phrase) :
    tree.constituent = phrase.constituent ∧
    (∀ part, tree.Has part → part.Shaped ∨ part.Missigned) ∧
    (∀ rule word sign found operand, rule.sign? = some word → ofTree resolver sign = .ok found →
      ofTree resolver (.node rule [sign, operand]) =
        ofTree resolver (.node rule [.leaf ⟨.operator, word⟩, operand])) := by
  refine ⟨(constituent_of_ofTree h).symm, fun part hPart => ?_, ?_⟩
  · obtain ⟨found, hFound⟩ := exists_phrase_of_has h hPart
    exact shaped_of_ofTree hFound
  · exact fun _ _ _ _ _ hSign hFound => ofTree_sign hSign hFound

/-- A negation with a number for its sign. -/
def numberedNegation : SyntaxTree :=
  .node .negation [.leaf ⟨.number, "1"⟩, .node .boolean [.leaf ⟨.boolean, "True"⟩]]

theorem number_passes_for_sign :
    (∃ phrase, ofTree none numberedNegation = .ok phrase) ∧
      ¬numberedNegation.Shaped ∧ numberedNegation.Missigned := by
  have hPhrase : ofTree none numberedNegation =
      .ok (.expr (.unary .not (.literal ⟨"True", .bool true⟩)) (.only .bool)) := by rfl
  have hShape : ¬numberedNegation.Shaped := by decide
  exact ⟨⟨_, hPhrase⟩, hShape,
    ((tree_has_its_shape hPhrase).2.1 _ (.self _)).resolve_left hShape⟩

end Phrase
end TopicSpec
