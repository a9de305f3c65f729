import TopicSpec.Proofs.Grammar.ConditionSound

/-! # Whole texts that are read are derived -/

namespace TopicSpec.Grammar
open Scan
set_option autoImplicit false

variable {s t : List Char}

/-! ## Events -/

theorem topic_yields : Yields topic .topic := by
  intro s t tree h
  obtain ⟨_, rfl, hName⟩ := accept_of_map h
  exact .topic (accept_of_topicName hName)

theorem guard_yields : Yields guard .guard := by
  intro s t tree h
  obtain ⟨_, _, _, hOpen, hGap, hRest⟩ := accept_of_thenGap h
  obtain ⟨_, _, _, hCondition, hGap', hRest⟩ := accept_of_thenGap hRest
  obtain ⟨_, rfl, hClose⟩ := accept_of_map hRest
  exact .guard (fixed_of_literal hOpen (by decide)) hGap
    (anyCondition_yields (require_eq_accept_iff.mp hCondition)) hGap'
    (fixed_of_literal (require_eq_accept_iff.mp hClose) (by decide))

theorem accept_of_aliasName {tree : SyntaxTree} (h : aliasName s = .accept tree t) :
    ∃ word a b c, tree = .token .name word ∧ Gap s a ∧ Fixed "as" a b ∧ Gap b c ∧
      Lexeme IsIdentifier word c t := by
  obtain ⟨a, hGap, hRest⟩ := accept_of_gap h
  obtain ⟨_, b, c, hAs, hGap', hRest⟩ := accept_of_thenGap hRest
  obtain ⟨word, rfl, hWord⟩ := accept_of_map hRest
  exact ⟨word, a, b, c, rfl, hGap, fixed_of_keyword hAs, hGap',
    lexeme_of_identifier (require_eq_accept_iff.mp hWord)⟩

theorem message_yields : Yields message .message := by
  intro s t tree h
  obtain ⟨name, m, hName, hRest⟩ := bind_eq_accept_iff.mp h
  obtain ⟨_, rfl, hWord⟩ := accept_of_map hRest
  rcases accept_of_optional hWord with ⟨rfl, rfl⟩ | ⟨word, rfl, hAccept⟩
  · exact .message (topic_yields hName)
  · obtain ⟨word, a, b, c, rfl, hGap, hAs, hGap', hLexeme⟩ := accept_of_aliasName hAccept
    exact .messageAs (topic_yields hName) hGap hAs hGap' hLexeme

theorem event_yields : Yields event .event := by
  intro s t tree h
  obtain ⟨head, m, hMessage, hRest⟩ := bind_eq_accept_iff.mp h
  obtain ⟨_, rfl, hGuard⟩ := accept_of_map hRest
  rcases accept_of_optional hGuard with ⟨rfl, rfl⟩ | ⟨tree, rfl, hAccept⟩
  · exact .event (message_yields hMessage)
  · obtain ⟨_, hGap, hTree⟩ := accept_of_gap hAccept
    exact .guardedEvent (message_yields hMessage) hGap (guard_yields hTree)

/-! ## Scopes -/

theorem activator_yields : Yields activator .activator := by
  intro s t tree h
  obtain ⟨_, rfl, hEvent⟩ := accept_of_map h
  exact .activator (event_yields (commit_eq_accept_iff.mp hEvent))

theorem terminator_yields : Yields terminator .terminator := by
  intro s t tree h
  obtain ⟨_, rfl, hEvent⟩ := accept_of_map h
  exact .terminator (event_yields (commit_eq_accept_iff.mp hEvent))

theorem afterUntil_yields : Yields afterUntil .scope := by
  intro s t tree h
  obtain ⟨_, _, _, hAfter, hGap₁, hRest⟩ := accept_of_thenGap h
  obtain ⟨_, _, _, hStart, hGap₂, hAfterGap⟩ := accept_of_thenGap hRest
  obtain ⟨until?, e, hUntil, hAfterUntil⟩ := bind_eq_accept_iff.mp hAfterGap
  rcases accept_of_optional hUntil with ⟨rfl, rfl⟩ | ⟨⟨⟩, rfl, hKeyword⟩
  · obtain ⟨rfl, rfl⟩ := pure_eq_accept_iff.mp hAfterUntil
    exact .afterScope (fixed_of_keyword hAfter) hGap₁ (activator_yields hStart) hGap₂
  · obtain ⟨_, hGap₃, hRest'⟩ := accept_of_gap hAfterUntil
    obtain ⟨_, rfl, hStop⟩ := accept_of_map hRest'
    exact .afterUntilScope (fixed_of_keyword hAfter) hGap₁ (activator_yields hStart) hGap₂
      (fixed_of_keyword hKeyword) hGap₃ (terminator_yields hStop)

theorem scope_yields : Yields scope .scope := by
  intro s t tree h
  obtain ⟨q, hq, hAccept⟩ := accept_of_firstOf h
  simp only [List.mem_cons, List.not_mem_nil, or_false] at hq
  rcases hq with rfl | rfl | rfl
  · obtain ⟨_, rfl, hWord⟩ := accept_of_map hAccept
    exact .globalScope (fixed_of_keyword hWord)
  · exact afterUntil_yields hAccept
  · obtain ⟨_, _, _, hUntil, hGap, hRest⟩ := accept_of_thenGap hAccept
    obtain ⟨_, rfl, hStop⟩ := accept_of_map hRest
    exact .untilScope (fixed_of_keyword hUntil) hGap (terminator_yields hStop)

/-! ## Patterns -/

theorem fixed_of_boundUnit {rule : Rule} {unit : String}
    (h : boundUnit s = .accept (rule, unit) t) :
    (rule, unit) ∈ [(.timeAmount, "ms"), (.timeAmount, "s"), (.frequency, "hz")] ∧
      Fixed unit s t := by
  obtain ⟨q, hq, hAccept⟩ := accept_of_firstOf h
  simp only [List.mem_cons, List.not_mem_nil, or_false] at hq
  rcases hq with rfl | rfl | rfl
  all_goals
    obtain ⟨word, m, hWord, hPure⟩ := bind_eq_accept_iff.mp hAccept
    obtain ⟨hEq, rfl⟩ := pure_eq_accept_iff.mp hPure
    obtain ⟨rfl, rfl⟩ := Prod.mk.inj hEq
    obtain ⟨hMem, hFixed⟩ := fixed_of_oneKeyword hWord
    obtain rfl := List.mem_singleton.mp hMem
    exact ⟨by decide, hFixed⟩

theorem bound_yields : Yields bound .bound := by
  intro s t tree h
  obtain ⟨_, hGap₁, hRest⟩ := accept_of_gap h
  obtain ⟨_, _, _, hWithin, hGap₂, hRest⟩ := accept_of_thenGap hRest
  obtain ⟨_, _, _, hAmount, hGap₃, hRest⟩ := accept_of_thenGap hRest
  obtain ⟨⟨_, _⟩, rfl, hUnit⟩ := accept_of_map hRest
  obtain ⟨hMem, hFixed⟩ := fixed_of_boundUnit (require_eq_accept_iff.mp hUnit)
  exact .bound hGap₁ (fixed_of_keyword hWithin) hGap₂
    (lexeme_of_number (require_eq_accept_iff.mp hAmount)) hGap₃ hMem hFixed

theorem unaryPattern_yields {word : String} {rule : Rule}
    (hRule : (rule, word) ∈ [(Rule.existence, "some"), (.absence, "no")]) :
    Yields (unaryPattern word rule) .pattern := by
  intro s t tree h
  obtain ⟨_, _, _, hWord, hGap, hRest⟩ := accept_of_thenGap h
  obtain ⟨behaviour, c, hBehaviour, hRest⟩ := bind_eq_accept_iff.mp hRest
  obtain ⟨_, rfl, hLimit⟩ := accept_of_map hRest
  have hEvent := event_yields (commit_eq_accept_iff.mp hBehaviour)
  rcases accept_of_optional hLimit with ⟨rfl, rfl⟩ | ⟨limit, rfl, hBound⟩
  · exact .unaryPattern hRule (fixed_of_keyword hWord) hGap hEvent
  · exact .boundedUnaryPattern hRule (fixed_of_keyword hWord) hGap hEvent
      (bound_yields hBound)

theorem fixed_of_patternKeyword {rule : Rule} (h : patternKeyword s = .accept rule t) :
    ∃ word, (rule, word) ∈
      [(Rule.response, "causes"), (.prevention, "forbids"), (.requirement, "requires")] ∧
      Fixed word s t := by
  obtain ⟨q, hq, hAccept⟩ := accept_of_firstOf h
  simp only [List.mem_cons, List.not_mem_nil, or_false] at hq
  rcases hq with rfl | rfl | rfl
  all_goals
    obtain ⟨_, rfl, hWord⟩ := accept_of_map hAccept
    exact ⟨_, by decide, fixed_of_keyword hWord⟩

theorem binaryPattern_yields : Yields binaryPattern .pattern := by
  intro s t tree h
  obtain ⟨_, _, _, hLeft, hGap₁, hRest⟩ := accept_of_thenGap h
  obtain ⟨_, _, _, hKeyword, hGap₂, hRest⟩ := accept_of_thenGap hRest
  obtain ⟨right, e, hRight, hRest⟩ := bind_eq_accept_iff.mp hRest
  obtain ⟨_, rfl, hLimit⟩ := accept_of_map hRest
  obtain ⟨word, hMem, hFixed⟩ := fixed_of_patternKeyword (require_eq_accept_iff.mp hKeyword)
  have hSecond := event_yields (commit_eq_accept_iff.mp hRight)
  rcases accept_of_optional hLimit with ⟨rfl, rfl⟩ | ⟨limit, rfl, hBound⟩
  · exact .binaryPattern hMem (event_yields hLeft) hGap₁ hFixed hGap₂ hSecond
  · exact .boundedBinaryPattern hMem (event_yields hLeft) hGap₁ hFixed hGap₂ hSecond
      (bound_yields hBound)

theorem pattern_yields : Yields pattern .pattern := by
  intro s t tree h
  obtain ⟨q, hq, hAccept⟩ := accept_of_firstOf h
  simp only [List.mem_cons, List.not_mem_nil, or_false] at hq
  rcases hq with rfl | rfl | rfl
  · exact unaryPattern_yields (by decide) hAccept
  · exact unaryPattern_yields (by decide) hAccept
  · exact binaryPattern_yields hAccept

/-! ## Whole texts -/

theorem property_yields : Yields property .property := by
  intro s t tree h
  obtain ⟨_, hGap₁, hRest⟩ := accept_of_gap h
  obtain ⟨_, _, _, hScope, hGap₂, hRest⟩ := accept_of_thenGap hRest
  obtain ⟨_, _, _, hColon, hGap₃, hRest⟩ := accept_of_thenGap hRest
  obtain ⟨_, _, _, hPattern, hGap₄, hPure⟩ := accept_of_thenGap hRest
  obtain ⟨rfl, rfl⟩ := pure_eq_accept_iff.mp hPure
  exact .property hGap₁ (scope_yields (require_eq_accept_iff.mp hScope)) hGap₂
    (fixed_of_literal (require_eq_accept_iff.mp hColon) (by decide)) hGap₃
    (pattern_yields (require_eq_accept_iff.mp hPattern)) hGap₄

theorem assumption_yields : Yields Grammar.assumption .assumption := by
  intro s t tree h
  obtain ⟨_, hGap₁, hRest⟩ := accept_of_gap h
  obtain ⟨_, _, _, hTopic, hGap₂, hRest⟩ := accept_of_thenGap hRest
  obtain ⟨_, _, _, hGuard, hGap₃, hPure⟩ := accept_of_thenGap hRest
  obtain ⟨rfl, rfl⟩ := pure_eq_accept_iff.mp hPure
  exact .assumption hGap₁ (topic_yields (require_eq_accept_iff.mp hTopic)) hGap₂
    (guard_yields (require_eq_accept_iff.mp hGuard)) hGap₃

theorem topLevelCondition_yields : Yields topLevelCondition .topLevelCondition := by
  intro s t tree h
  obtain ⟨_, hGap, hRest⟩ := accept_of_gap h
  obtain ⟨_, _, _, hCondition, hGap', hPure⟩ := accept_of_thenGap hRest
  obtain ⟨rfl, rfl⟩ := pure_eq_accept_iff.mp hPure
  exact .topLevelCondition hGap (anyCondition_yields hCondition) hGap'

end TopicSpec.Grammar

namespace TopicSpec
open Grammar

/-- The nonterminal of a form of whole texts. -/
def Form.nonterminal : Form → Nonterminal
  | property => .property
  | assumption => .assumption
  | predicate => .topLevelCondition

/-- The tree of a whole text is derived from the start of its form, between the two ends of the
text. -/
theorem SyntaxTree.derives_of_ofText {form : Form} {text : String} {tree : SyntaxTree}
    (h : ofText form text = .ok tree) : Derives form.nonterminal tree text.toList [] := by
  have hAccept := Scan.whole_eq_ok_iff.mp h
  cases form with
  | property => exact property_yields hAccept
  | assumption => exact assumption_yields hAccept
  | predicate => exact topLevelCondition_yields hAccept

end TopicSpec
