import TopicSpec.Proofs.Binding.Discipline
import TopicSpec.Proofs.Grammar.EventReading
import TopicSpec.Proofs.Literal.Reading
import TopicSpec.Proofs.Phrase.Unchecked
import TopicSpec.Proofs.Phrase.Written

/-! # What a text can say

The events that a text states have names of the grammar, and a guard that the grammar has a form for
or none. A time is no less than zero, and the first of two events is not taken for the word that
introduces a single one.
-/

namespace TopicSpec
open Grammar Scan
set_option autoImplicit false

structure Event.Said (event : Event) : Prop where
  topic : IsTopicName event.topic.toList
  named : ∀ name, event.alias? = some name → IsIdentifier name.toList
  guarded : event.guard = .vacuous ∨ ∃ ty, event.guard.Written ty ∧
    Typing.expect .guard (.only .bool) ty event.guard = .ok ()

structure Scope.Said (scope : Scope) : Prop where
  activator : ∀ event, scope.activator? = some event → event.Said
  terminator : ∀ event, scope.terminator? = some event → event.Said

/-- The events of a pattern in the order in which they are said. -/
def Pattern.spoken : Pattern → List Event
  | existence behaviour _ | absence behaviour _ => [behaviour]
  | response trigger behaviour _ | prevention trigger behaviour _ => [trigger, behaviour]
  | requirement behaviour trigger _ => [behaviour, trigger]

structure Pattern.Said (pattern : Pattern) : Prop where
  events : ∀ event ∈ pattern.spoken, event.Said
  time : pattern.maxTime.IsUnsigned
  /-- The topic does not begin with a word that introduces a single event. -/
  opening : ∀ first second, pattern.spoken = [first, second] → ∀ word ∈ ["some", "no"],
    ∀ rest, StopsWord rest → Declines (keyword word) (first.topic.toList ++ rest)

structure Property.Said (property : Property) : Prop where
  scope : property.scope.Said
  pattern : property.pattern.Said

structure Assumption.Said (assumption : Assumption) : Prop where
  topic : IsTopicName assumption.topic.toList
  guarded : ∃ ty, assumption.guard.Written ty ∧
    Typing.expect .guard (.only .bool) ty assumption.guard = .ok ()

/-! ## Events -/

namespace Phrase

variable {resolver : Option Resolver} {rule : Rule} {tree : SyntaxTree} {s t : List Char}
  {phrase : Phrase}

theorem ofTree_topicTree (topic : String) :
    ofTree resolver (topicTree topic) = .ok (.topic topic) := rfl

theorem ofTree_messageTree (resolver : Option Resolver) (topic : String) (alias? : Option String) :
    ofTree resolver (messageTree topic alias?) = .ok (.message topic alias?) := by
  cases alias? <;> rfl

theorem said_of_topic (h : Derives .topic tree s t) (hTree : ofTree resolver tree = .ok phrase) :
    ∃ name : String, phrase = .topic name ∧ IsTopicName name.toList := by
  cases h with
  | @topic word _ _ hLexeme =>
    obtain rfl := Except.ok.inj hTree
    exact ⟨String.ofList word, rfl, by rw [String.toList_ofList]; exact hLexeme.2⟩

theorem said_of_guard (h : Derives .guard tree s t) (hTree : ofTree resolver tree = .ok phrase) :
    ∃ condition ty, phrase = .guard condition ∧ condition.Written ty ∧
      Typing.expect .guard (.only .bool) ty condition = .ok () := by
  cases h with
  | guard _ _ hCondition _ _ =>
    obtain ⟨p, hChild, hNode⟩ := children_of_one hTree
    obtain ⟨condition, ty, rfl⟩ := eq_expr_of_sense (sense_of_derives hCondition hChild)
    obtain ⟨_, hSame, hRest⟩ := ok_of_bind hNode
    obtain rfl := Except.ok.inj hSame
    obtain ⟨_, hExpect, hGuard⟩ := ok_of_bind hRest
    obtain rfl := Except.ok.inj hGuard
    have hWritten := written_of_derives hCondition rfl nofun hChild
    exact ⟨condition, ty, rfl, hWritten, ok_of_mapError hExpect⟩

theorem said_of_message (h : Derives .message tree s t)
    (hTree : ofTree resolver tree = .ok phrase) :
    ∃ topic alias?, phrase = .message topic alias? ∧ IsTopicName topic.toList ∧
      ∀ name, alias? = some name → IsIdentifier name.toList := by
  cases h with
  | message hTopic =>
    obtain ⟨p, hChild, hNode⟩ := children_of_one hTree
    obtain ⟨topic, rfl, hName⟩ := said_of_topic hTopic hChild
    obtain rfl := Except.ok.inj hNode
    exact ⟨topic, none, rfl, hName, nofun⟩
  | messageAs hTopic _ _ _ hAlias =>
    obtain ⟨p, q, hChild, hLeaf, hNode⟩ := children_of_two hTree
    obtain ⟨topic, rfl, hName⟩ := said_of_topic hTopic hChild
    obtain rfl := Except.ok.inj hLeaf
    obtain rfl := Except.ok.inj hNode
    refine ⟨topic, _, rfl, hName, fun name hSome => ?_⟩
    obtain rfl := Option.some.inj hSome
    rw [String.toList_ofList]
    exact hAlias.2

theorem said_of_event (h : Derives .event tree s t) (hTree : ofTree resolver tree = .ok phrase) :
    ∃ event : Event, phrase = .event event ∧ event.Said := by
  cases h with
  | event hMessage =>
    obtain ⟨p, hChild, hNode⟩ := children_of_one hTree
    obtain ⟨name, alias?, rfl, hTopic, hNamed⟩ := said_of_message hMessage hChild
    obtain rfl := Except.ok.inj hNode
    exact ⟨_, rfl, hTopic, hNamed, .inl rfl⟩
  | guardedEvent hMessage _ hGuard =>
    obtain ⟨p, q, hChild, hGuardChild, hNode⟩ := children_of_two hTree
    obtain ⟨name, alias?, rfl, hTopic, hNamed⟩ := said_of_message hMessage hChild
    obtain ⟨condition, ty, rfl, hGuarded⟩ := said_of_guard hGuard hGuardChild
    obtain rfl := Except.ok.inj hNode
    exact ⟨_, rfl, hTopic, hNamed, .inr ⟨ty, hGuarded⟩⟩

theorem said_of_delimiter {n : Nonterminal} (hDelimiter : n ∈ [.activator, .terminator])
    (h : Derives n tree s t) (hTree : ofTree resolver tree = .ok phrase) :
    ∃ event : Event, phrase = .event event ∧ event.Said := by
  cases h with
  | activator hEvent | terminator hEvent =>
    obtain ⟨p, hChild, hNode⟩ := children_of_one hTree
    obtain ⟨event, rfl, hSaid⟩ := said_of_event hEvent hChild
    obtain rfl := Except.ok.inj hNode
    exact ⟨event, rfl, hSaid⟩
  | _ => simp at hDelimiter

theorem said_of_scope (h : Derives .scope tree s t) (hTree : ofTree resolver tree = .ok phrase) :
    ∃ scope : Scope, phrase = .scope scope ∧ scope.Said := by
  cases h with
  | globalScope =>
    obtain rfl := Except.ok.inj hTree
    exact ⟨_, rfl, nofun, nofun⟩
  | afterScope _ _ hStart _ =>
    obtain ⟨p, hChild, hNode⟩ := children_of_one hTree
    obtain ⟨activator, rfl, hActivator⟩ := said_of_delimiter (by decide) hStart hChild
    obtain rfl := Except.ok.inj hNode
    exact ⟨_, rfl, fun _ hEvent => Option.some.inj hEvent ▸ hActivator, nofun⟩
  | afterUntilScope _ _ hStart _ _ _ hStop =>
    obtain ⟨p, q, hChild, hStopChild, hNode⟩ := children_of_two hTree
    obtain ⟨activator, rfl, hActivator⟩ := said_of_delimiter (by decide) hStart hChild
    obtain ⟨terminator, rfl, hTerminator⟩ := said_of_delimiter (by decide) hStop hStopChild
    obtain rfl := Except.ok.inj hNode
    exact ⟨_, rfl, fun _ hEvent => Option.some.inj hEvent ▸ hActivator,
      fun _ hEvent => Option.some.inj hEvent ▸ hTerminator⟩
  | untilScope _ _ hStop =>
    obtain ⟨p, hChild, hNode⟩ := children_of_one hTree
    obtain ⟨terminator, rfl, hTerminator⟩ := said_of_delimiter (by decide) hStop hChild
    obtain rfl := Except.ok.inj hNode
    exact ⟨_, rfl, nofun, fun _ hEvent => Option.some.inj hEvent ▸ hTerminator⟩

/-! ## Patterns -/

theorem said_of_ofBound {convert : String → String → Except SpecError Double}
    {amount unit : String}
    (hTime : Concludes Double.IsUnsigned SpecError.Substantive (convert amount unit))
    (h : ofBound rule convert [token ⟨.number, amount⟩, token ⟨.unit, unit⟩] = .ok phrase) :
    ∃ time : Double, phrase = .seconds time ∧ time.IsUnsigned := by
  simp only [ofBound, toToken, if_true, ok_bind] at h
  obtain ⟨time, hConvert, hPure⟩ := ok_of_bind h
  obtain rfl := Except.ok.inj hPure
  exact ⟨time, rfl, (concludes_iff.mp hTime).1 time hConvert⟩

theorem said_of_bound (h : Derives .bound tree s t) (hTree : ofTree resolver tree = .ok phrase) :
    ∃ time : Double, phrase = .seconds time ∧ time.IsUnsigned := by
  cases h with
  | @bound _ amount unit _ _ _ _ _ _ _ _ _ _ hNumber _ hUnit _ =>
    obtain ⟨p, q, hAmount, hLeaf, hNode⟩ := children_of_two hTree
    obtain rfl := Except.ok.inj hAmount
    obtain rfl := Except.ok.inj hLeaf
    have hLexeme : IsNumber (String.ofList amount).toList := by
      rw [String.toList_ofList]
      exact hNumber.2
    obtain ⟨convert, hConvert, hTime⟩ := ofNode_bound hUnit
    exact said_of_ofBound (hTime _ hLexeme) ((hConvert _).symm.trans hNode)

/-- The time of a bound that may be left out. -/
def timeOf : List Phrase → Double
  | [seconds time] => time
  | _ => .infinity false

section
variable {behaviour left right : Event} {bound : List Phrase}

theorem ofUnaryPattern_eq (make : Event → Double → Pattern)
    (hBound : bound = [] ∨ ∃ time, bound = [.seconds time]) :
    ofUnaryPattern rule make (.event behaviour :: bound) =
      .ok (.pattern (make behaviour (timeOf bound))) := by
  rcases hBound with rfl | ⟨time, rfl⟩ <;> rfl

theorem ofBinaryPattern_eq (make : Event → Event → Double → Pattern)
    (hBound : bound = [] ∨ ∃ time, bound = [.seconds time]) :
    ofBinaryPattern rule make (.event left :: .event right :: bound) =
      .ok (.pattern (make left right (timeOf bound))) := by
  rcases hBound with rfl | ⟨time, rfl⟩ <;> rfl

theorem pattern_of_unary {word : String}
    (hRule : (rule, word) ∈ [(Rule.existence, "some"), (.absence, "no")])
    (hBound : bound = [] ∨ ∃ time, bound = [.seconds time])
    (hNode : ofNode resolver rule (.event behaviour :: bound) = .ok phrase) :
    ∃ pattern : Pattern, phrase = .pattern pattern ∧ pattern.spoken = [behaviour] ∧
      pattern.maxTime = timeOf bound := by
  simp only [List.mem_cons, Prod.mk.injEq, List.not_mem_nil, or_false] at hRule
  rcases hRule with ⟨rfl, -⟩ | ⟨rfl, -⟩
  · exact ⟨_, Except.ok.inj (hNode.symm.trans (ofUnaryPattern_eq _ hBound)), rfl, rfl⟩
  · exact ⟨_, Except.ok.inj (hNode.symm.trans (ofUnaryPattern_eq _ hBound)), rfl, rfl⟩

theorem pattern_of_binary {word : String}
    (hRule : (rule, word) ∈
      [(Rule.response, "causes"), (.prevention, "forbids"), (.requirement, "requires")])
    (hBound : bound = [] ∨ ∃ time, bound = [.seconds time])
    (hNode : ofNode resolver rule (.event left :: .event right :: bound) = .ok phrase) :
    ∃ pattern : Pattern, phrase = .pattern pattern ∧ pattern.spoken = [left, right] ∧
      pattern.maxTime = timeOf bound := by
  simp only [List.mem_cons, Prod.mk.injEq, List.not_mem_nil, or_false] at hRule
  rcases hRule with ⟨rfl, -⟩ | ⟨rfl, -⟩ | ⟨rfl, -⟩
  · exact ⟨_, Except.ok.inj (hNode.symm.trans (ofBinaryPattern_eq _ hBound)), rfl, rfl⟩
  · exact ⟨_, Except.ok.inj (hNode.symm.trans (ofBinaryPattern_eq _ hBound)), rfl, rfl⟩
  · exact ⟨_, Except.ok.inj (hNode.symm.trans (ofBinaryPattern_eq _ hBound)), rfl, rfl⟩

end

theorem said_of_unary {pattern : Pattern} {behaviour : Event} {bound : List Phrase}
    (hSpoken : pattern.spoken = [behaviour]) (hTime : pattern.maxTime = timeOf bound)
    (hSaid : behaviour.Said) (hUnsigned : (timeOf bound).IsUnsigned) : pattern.Said where
  events := by simpa [hSpoken] using hSaid
  time := by rwa [hTime]
  opening first second hBoth := by
    rw [hSpoken] at hBoth
    cases hBoth

/-! ## The opening of a pattern -/

/-- Whether a topic is taken for a word is seen from the topic alone. -/
theorem declines_keyword_append {word : String} {topic rest rest' : List Char}
    (hWord : ∀ c ∈ word.toList, isWordChar c = true) (hStops : StopsWord rest)
    (h : Declines (keyword word) (topic ++ rest)) (hStops' : StopsWord rest') :
    Declines (keyword word) (topic ++ rest') := by
  apply declines_keyword
  intro u hText hEnd
  -- A word that ends inside the topic is followed there by what follows it in the other text.
  have hNone : ∀ more, topic = word.toList ++ more → ¬StopsWord (more ++ rest) := by
    rintro more rfl hMore
    have hAccept : keyword word (word.toList ++ more ++ rest) = .accept () (more ++ rest) :=
      keyword_eq_accept_iff.mpr ⟨List.append_assoc _ _ _, hMore⟩
    exact decides_of_accept hAccept h
  rcases List.append_eq_append_iff.mp hText with ⟨more, hMore, hRest⟩ | ⟨more, hMore, hRest⟩
  · cases more with
    | nil =>
      rw [List.append_nil] at hMore
      exact hNone [] (by rw [hMore, List.append_nil]) hStops
    | cons c more =>
      rw [hRest] at hStops'
      have hChar := hWord c (by simp [hMore])
      rw [stops_cons_iff.mp hStops'] at hChar
      cases hChar
  · apply hNone more hMore
    cases more with
    | nil => exact hStops
    | cons c more =>
      rw [hRest] at hEnd
      exact stops_cons_iff.mpr (stops_cons_iff.mp hEnd)

theorem topic_of_event {e : Event} (h : Grammar.event s = .accept tree t)
    (hTree : ofTree resolver tree = .ok (.event e)) :
    ∃ rest, s = e.topic.toList ++ rest ∧ StopsWord rest := by
  obtain ⟨head, m, hMessage, hRest⟩ := bind_eq_accept_iff.mp h
  obtain ⟨guard?, rfl, -⟩ := accept_of_map hRest
  obtain ⟨topicTree, rest, hTopic, hRest⟩ := bind_eq_accept_iff.mp hMessage
  obtain ⟨alias?, rfl, hAlias⟩ := accept_of_map hRest
  obtain ⟨word, rfl, hWord⟩ := accept_of_map hTopic
  refine ⟨rest, ?_, stopsWord_of_topicName hWord⟩
  obtain ⟨alias?, hHead⟩ : ∃ alias?, ofTree resolver (.node .message
      (.node .topicName [.token .topicName word] :: Option.toList ‹_›)) =
      .ok (.message (String.ofList word) alias?) := by
    rcases accept_of_optional hAlias with ⟨rfl, -⟩ | ⟨name, rfl, hName⟩
    · exact ⟨none, rfl⟩
    · obtain ⟨name, _, _, _, rfl, -⟩ := accept_of_aliasName hName
      exact ⟨some (String.ofList name), rfl⟩
  have hEvent : e.topic = String.ofList word := by
    cases guard? with
    | none =>
      obtain ⟨p, hChild, hNode⟩ := children_of_one hTree
      obtain rfl := Except.ok.inj (hHead.symm.trans hChild)
      rw [← Phrase.event.inj (Except.ok.inj hNode)]
    | some guard =>
      obtain ⟨p, q, hChild, hGuard, hNode⟩ := children_of_two hTree
      obtain rfl := Except.ok.inj (hHead.symm.trans hChild)
      obtain ⟨condition, -, hPure⟩ := ok_of_bind hNode
      rw [← Phrase.event.inj (Except.ok.inj hPure)]
  rw [hEvent, String.toList_ofList]
  exact (accept_of_topicName hWord).1

theorem declines_of_pattern {children : List SyntaxTree}
    (h : Grammar.pattern s = .accept (.node rule children) t)
    (hRule : rule ≠ .existence ∧ rule ≠ .absence) :
    ∀ word ∈ ["some", "no"], Declines (keyword word) s := by
  intro word hWord
  have hTable : ∃ rule', (rule', word) ∈ [(Rule.existence, "some"), (.absence, "no")] ∧
      rule' ≠ rule := by
    simp only [List.mem_cons, List.not_mem_nil, or_false] at hWord
    rcases hWord with rfl | rfl
    · exact ⟨.existence, by simp, hRule.1.symm⟩
    · exact ⟨.absence, by simp, hRule.2.symm⟩
  obtain ⟨rule', hMem, hOther⟩ := hTable
  rcases keyword_cases word s with ⟨r, hAccept⟩ | hReject
  · rw [pattern_of_keyword hMem hAccept] at h
    obtain ⟨_, _, _, -, -, hRest⟩ := accept_of_thenGap h
    obtain ⟨_, _, -, hRest⟩ := bind_eq_accept_iff.mp hRest
    obtain ⟨_, hNode, -⟩ := accept_of_map hRest
    cases hNode
    exact absurd rfl hOther
  · exact ⟨_, _, hReject⟩

theorem opening_of_pattern {left : SyntaxTree} {more : List SyntaxTree} {first : Event}
    (h : Grammar.pattern s = .accept (.node rule (left :: more)) t)
    (hRule : rule ≠ .existence ∧ rule ≠ .absence)
    (hTree : ofTree resolver left = .ok (.event first)) :
    ∀ word ∈ ["some", "no"], ∀ rest, StopsWord rest →
      Declines (keyword word) (first.topic.toList ++ rest) := by
  have hDeclines := declines_of_pattern h hRule
  rw [pattern_of_declines hDeclines] at h
  obtain ⟨front, _, _, hFront, -, hRest⟩ := accept_of_thenGap h
  obtain ⟨_, _, _, -, -, hRest⟩ := accept_of_thenGap hRest
  obtain ⟨_, _, -, hRest⟩ := bind_eq_accept_iff.mp hRest
  obtain ⟨_, hNode, -⟩ := accept_of_map hRest
  cases hNode
  obtain ⟨rest, rfl, hStops⟩ := topic_of_event hFront hTree
  -- The words were declined in front of one rest, and the topic alone decides.
  intro word hWord rest' hStops'
  refine declines_keyword_append ?_ hStops (hDeclines word hWord) hStops'
  simp only [List.mem_cons, List.not_mem_nil, or_false] at hWord
  rcases hWord with rfl | rfl
  · exact List.all_eq_true.mp rfl
  · exact List.all_eq_true.mp rfl

theorem ne_of_binary {word : String}
    (hRule : (rule, word) ∈
      [(Rule.response, "causes"), (.prevention, "forbids"), (.requirement, "requires")]) :
    rule ≠ .existence ∧ rule ≠ .absence := by
  simp only [List.mem_cons, Prod.mk.injEq, List.not_mem_nil, or_false] at hRule
  rcases hRule with ⟨rfl, -⟩ | ⟨rfl, -⟩ | ⟨rfl, -⟩ <;> decide

theorem said_of_binary {pattern : Pattern} {left right : Event} {bound : List Phrase}
    (hSpoken : pattern.spoken = [left, right]) (hTime : pattern.maxTime = timeOf bound)
    (hLeft : left.Said) (hRight : right.Said) (hUnsigned : (timeOf bound).IsUnsigned)
    (hOpening : ∀ word ∈ ["some", "no"], ∀ rest, StopsWord rest →
      Declines (keyword word) (left.topic.toList ++ rest)) : pattern.Said where
  events := by simpa [hSpoken] using ⟨hLeft, hRight⟩
  time := by rwa [hTime]
  opening first second hBoth := by
    rw [hSpoken] at hBoth
    cases hBoth
    exact hOpening

theorem said_of_pattern (h : Grammar.pattern s = .accept tree t)
    (hTree : ofTree resolver tree = .ok phrase) :
    ∃ pattern : Pattern, phrase = .pattern pattern ∧ pattern.Said := by
  have hDerives := pattern_yields h
  cases hDerives with
  | unaryPattern hRule _ _ hBehaviour =>
    obtain ⟨p, hChild, hNode⟩ := children_of_one hTree
    obtain ⟨behaviour, rfl, hSaid⟩ := said_of_event hBehaviour hChild
    obtain ⟨pattern, rfl, hSpoken, hTime⟩ := pattern_of_unary hRule (.inl rfl) hNode
    exact ⟨pattern, rfl, said_of_unary hSpoken hTime hSaid (.inl rfl)⟩
  | boundedUnaryPattern hRule _ _ hBehaviour hLimit =>
    obtain ⟨p, q, hChild, hLimitChild, hNode⟩ := children_of_two hTree
    obtain ⟨behaviour, rfl, hSaid⟩ := said_of_event hBehaviour hChild
    obtain ⟨time, rfl, hUnsigned⟩ := said_of_bound hLimit hLimitChild
    obtain ⟨pattern, rfl, hSpoken, hTime⟩ := pattern_of_unary hRule (.inr ⟨time, rfl⟩) hNode
    exact ⟨pattern, rfl, said_of_unary hSpoken hTime hSaid hUnsigned⟩
  | binaryPattern hRule hLeft _ _ _ hRight =>
    obtain ⟨p, q, hLeftChild, hRightChild, hNode⟩ := children_of_two hTree
    obtain ⟨left, rfl, hLeftSaid⟩ := said_of_event hLeft hLeftChild
    have hOpening := opening_of_pattern h (ne_of_binary hRule) hLeftChild
    obtain ⟨right, rfl, hRightSaid⟩ := said_of_event hRight hRightChild
    obtain ⟨pattern, rfl, hSpoken, hTime⟩ := pattern_of_binary hRule (.inl rfl) hNode
    exact ⟨pattern, rfl,
      said_of_binary hSpoken hTime hLeftSaid hRightSaid (.inl rfl) hOpening⟩
  | boundedBinaryPattern hRule hLeft _ _ _ hRight hLimit =>
    obtain ⟨p, q, r, hLeftChild, hRightChild, hLimitChild, hNode⟩ := children_of_three hTree
    obtain ⟨left, rfl, hLeftSaid⟩ := said_of_event hLeft hLeftChild
    have hOpening := opening_of_pattern h (ne_of_binary hRule) hLeftChild
    obtain ⟨right, rfl, hRightSaid⟩ := said_of_event hRight hRightChild
    obtain ⟨time, rfl, hUnsigned⟩ := said_of_bound hLimit hLimitChild
    obtain ⟨pattern, rfl, hSpoken, hTime⟩ := pattern_of_binary hRule (.inr ⟨time, rfl⟩) hNode
    exact ⟨pattern, rfl,
      said_of_binary hSpoken hTime hLeftSaid hRightSaid hUnsigned hOpening⟩

end Phrase

/-! ## Whole texts -/

theorem ofTrees_two {resolver : Option Resolver} {a b : SyntaxTree} {phrases : List Phrase}
    (h : Phrase.ofTrees resolver [a, b] = .ok phrases) :
    ∃ p q, Phrase.ofTree resolver a = .ok p ∧ Phrase.ofTree resolver b = .ok q ∧
      phrases = [p, q] := by
  obtain ⟨p, _, ha, hMore, rfl⟩ := List.forall₂_cons_left_iff.mp (Phrase.forall₂_of_ofTrees h)
  obtain ⟨q, _, hb, hNil, rfl⟩ := List.forall₂_cons_left_iff.mp hMore
  obtain rfl := List.forall₂_nil_left_iff.mp hNil
  exact ⟨p, q, ha, hb, rfl⟩

variable {text : String}

/-- The run of the pattern is kept, because a derivation does not tell which words were tried. -/
theorem pattern_of_readTree {tree : SyntaxTree} (h : readTree .property text = .ok tree) :
    ∃ scope pattern a b c d, tree = .node .property [scope, pattern] ∧
      Derives .scope scope a b ∧ Grammar.pattern c = .accept pattern d := by
  have hProperty : Grammar.property text.toList = .accept tree [] := readTree_eq_ok_iff.mp h
  obtain ⟨a, -, hRest⟩ := accept_of_gap hProperty
  obtain ⟨scope, b, _, hScope, -, hRest⟩ := accept_of_thenGap hRest
  obtain ⟨_, _, c, -, -, hRest⟩ := accept_of_thenGap hRest
  obtain ⟨pattern, d, _, hPattern, -, hPure⟩ := accept_of_thenGap hRest
  obtain ⟨rfl, -⟩ := pure_eq_accept_iff.mp hPure
  exact ⟨scope, pattern, a, b, c, d, rfl, scope_yields (require_eq_accept_iff.mp hScope),
    require_eq_accept_iff.mp hPattern⟩

theorem Property.said_of_stated {property : Property} (h : Property.stated text = .ok property) :
    property.Said := by
  obtain ⟨tree, hRead, hRest⟩ := ok_of_bind h
  obtain ⟨_, _, _, _, _, _, rfl, hScope, hPattern⟩ := pattern_of_readTree hRead
  obtain ⟨phrases, hPhrases, hMatch⟩ := ok_of_bind hRest
  obtain ⟨p, q, hP, hQ, rfl⟩ := ofTrees_two hPhrases
  obtain ⟨scope, rfl, hScopeSaid⟩ := Phrase.said_of_scope hScope hP
  obtain ⟨pattern, rfl, hPatternSaid⟩ := Phrase.said_of_pattern hPattern hQ
  obtain rfl := Except.ok.inj hMatch
  exact ⟨hScopeSaid, hPatternSaid⟩

theorem Assumption.said_of_stated {assumption : Assumption}
    (h : Assumption.stated text = .ok assumption) : assumption.Said := by
  obtain ⟨tree, hRead, hRest⟩ := ok_of_bind h
  cases derives_of_readTree hRead with
  | assumption _ hName _ hGuard _ =>
    obtain ⟨phrases, hPhrases, hMatch⟩ := ok_of_bind hRest
    obtain ⟨p, q, hP, hQ, rfl⟩ := ofTrees_two hPhrases
    obtain ⟨name, rfl, hTopic⟩ := Phrase.said_of_topic hName hP
    obtain ⟨condition, ty, rfl, hGuarded⟩ := Phrase.said_of_guard hGuard hQ
    obtain rfl := Except.ok.inj hMatch
    exact ⟨hTopic, ty, hGuarded⟩

/-! ## Guards -/

/-- The guard is left out or an expression that a text can say. -/
def Event.Written (event : Event) : Prop :=
  event.guard = .vacuous ∨ ∃ ty, event.guard.Written ty

def Property.Written (property : Property) : Prop :=
  ∀ slot event, property.event? slot = some event → event.Written

theorem Event.Said.written {event : Event} (h : event.Said) : event.Written :=
  h.guarded.imp_right fun ⟨ty, hWritten, _⟩ => ⟨ty, hWritten⟩

theorem Pattern.behaviour_mem_spoken (pattern : Pattern) :
    pattern.behaviour ∈ pattern.spoken := by
  cases pattern <;> simp [behaviour, spoken]

theorem Pattern.trigger_mem_spoken {pattern : Pattern} {event : Event}
    (h : pattern.trigger? = some event) : event ∈ pattern.spoken := by
  cases pattern <;> cases h <;> simp [spoken]

/-- What holds of the events of the scope and of those of the pattern holds in every slot. -/
theorem Property.holds_in_slots {property : Property} {P : Event → Prop}
    (hActivator : ∀ event, property.scope.activator? = some event → P event)
    (hTerminator : ∀ event, property.scope.terminator? = some event → P event)
    (hSpoken : ∀ event ∈ property.pattern.spoken, P event) :
    ∀ slot event, property.event? slot = some event → P event := by
  intro slot event hEvent
  cases slot with
  | activator => exact hActivator event hEvent
  | trigger => exact hSpoken event (Pattern.trigger_mem_spoken hEvent)
  | behaviour =>
    obtain rfl := Option.some.inj hEvent
    exact hSpoken _ (Pattern.behaviour_mem_spoken _)
  | terminator => exact hTerminator event hEvent

theorem Property.Said.event {property : Property} (h : property.Said) {slot : Slot} {event : Event}
    (hEvent : property.event? slot = some event) : event.Said :=
  holds_in_slots h.scope.activator h.scope.terminator h.pattern.events slot event hEvent

theorem Property.written_of_stated {property : Property} (h : Property.stated text = .ok property) :
    property.Written :=
  fun _ _ hEvent => ((Property.said_of_stated h).event hEvent).written

theorem Assumption.written_of_stated {assumption : Assumption}
    (h : Assumption.stated text = .ok assumption) : ∃ ty, assumption.guard.Written ty := by
  obtain ⟨ty, hWritten, -⟩ := (Assumption.said_of_stated h).guarded
  exact ⟨ty, hWritten⟩

end TopicSpec
