import TopicSpec.Proofs.Grammar.Embedding
import TopicSpec.Proofs.Grammar.EventReading
import TopicSpec.Proofs.Grammar.Yield

/-! # One guard in three forms

The text of a condition, the assumption that has it for a guard and the property that has it for the
guard of its only event are malformed together. -/

namespace TopicSpec
open Grammar Scan
set_option autoImplicit false

namespace Grammar

variable {s t u : List Char} {condition tree : SyntaxTree}

theorem suffix_of_derives {n : Nonterminal} (h : Derives n tree s t) (hRoom : Room n none) :
    t <:+ s := ((spelledAs_of_derives h).alone none hRoom).suffix

/-- What is left of a text that ends with a brace holds more than a gap. -/
theorem eq_nil_of_afterGap (h : t <:+ s ++ ['\n', '\x7d']) (hGap : afterGap false t = []) :
    t = [] := by
  have hSplit : s ++ ['\n', '\x7d'] = (s ++ ['\n']) ++ ['\x7d'] := by simp
  rw [hSplit] at h
  rcases List.suffix_concat_iff.mp h with rfl | ⟨r, rfl, hRest⟩
  · rfl
  rcases List.suffix_concat_iff.mp hRest with rfl | ⟨r, rfl, -⟩
  · cases hGap
  · rw [List.append_assoc, List.singleton_append] at hGap
    rcases afterGap_append_cases false r with ⟨kept, -, hKept⟩ | ⟨comment, hOver⟩
    · simp [hKept] at hGap
    · rw [hOver] at hGap
      cases comment <;> cases hGap

/-- No bound reaches the end of a text that ends with a brace. -/
theorem bound_leaves (hText : s <:+ u ++ ['\n', '\x7d']) (h : bound s = .accept tree t) :
    t ≠ [] := by
  rintro rfl
  have hDerives := bound_yields h
  cases hDerives with
  | @bound _ _ unit _ a b c d e _ hGap hWithin hGap' hAmount hGap'' hUnit hFixed =>
    have hLast : e <:+ s := (((suffix_of_gap hGap'').trans ⟨_, hAmount.1.symm⟩).trans
      (suffix_of_gap hGap')).trans ((suffix_of_fixed hWithin).trans (suffix_of_gap hGap))
    have hEnd : unit.toList <:+ (u ++ ['\n']) ++ ['\x7d'] := by
      have hWord := hFixed.1
      rw [List.append_nil] at hWord
      rw [← hWord, List.append_assoc]
      exact hLast.trans hText
    simp only [List.mem_cons, Prod.mk.injEq, List.not_mem_nil, or_false] at hUnit
    rcases List.suffix_concat_iff.mp hEnd with hNil | ⟨r, hBrace, -⟩
    · rcases hUnit with ⟨-, rfl⟩ | ⟨-, rfl⟩ | ⟨-, rfl⟩ <;> cases hNil
    · have hLastChar := congrArg List.getLast? hBrace
      rw [List.getLast?_concat] at hLastChar
      rcases hUnit with ⟨-, rfl⟩ | ⟨-, rfl⟩ | ⟨-, rfl⟩ <;> cases hLastChar

/-! ## Guards -/

theorem guard_eq_accept_iff :
    guard ('\x7b' :: (s ++ ['\n', '\x7d'])) = .accept tree [] ↔
      ∃ condition, tree = .node .guard [condition] ∧
        topLevelCondition s = .accept (.node .topLevelCondition [condition]) [] := by
  have hOpen : literal "\x7b" ('\x7b' :: (s ++ ['\n', '\x7d'])) =
      .accept () (s ++ ['\n', '\x7d']) := rfl
  rw [guard, bind_of_accept hOpen, bind_of_accept (gap_eq_accept _), bind_eq_accept_iff]
  constructor
  · rintro ⟨condition, rest, hFound, hRest⟩
    rw [bind_of_accept (gap_eq_accept rest)] at hRest
    obtain ⟨_, rfl, hClose⟩ := accept_of_map hRest
    refine ⟨condition, rfl, topLevelCondition_eq_accept_iff.mpr ?_⟩
    apply (anyCondition_enclosed (.inl rfl) s condition).mpr
    exact ⟨rest, require_eq_accept_iff.mp hFound,
      literal_eq_accept_iff.mp (require_eq_accept_iff.mp hClose)⟩
  · rintro ⟨condition, rfl, hTop⟩
    obtain ⟨rest, hFound, hEnd⟩ :=
      (anyCondition_enclosed (.inl rfl) s condition).mp (topLevelCondition_eq_accept_iff.mp hTop)
    refine ⟨condition, rest, require_eq_accept_iff.mpr hFound, ?_⟩
    rw [bind_of_accept (gap_eq_accept rest), hEnd]
    rfl

theorem guard_stop (h : guard ('\x7b' :: (s ++ ['\n', '\x7d'])) = .accept tree t) :
    t <:+ '\x7b' :: s ++ ['\n', '\x7d'] := suffix_of_derives (guard_yields h) nofun

/-! ## Assumptions and properties -/

section
variable {topic : String}

theorem assumption_eq_accept_iff (h : IsTopicName topic.toList) :
    Grammar.assumption (topic.toList ++ ' ' :: '\x7b' :: (s ++ ['\n', '\x7d'])) =
        .accept tree [] ↔
      ∃ condition, tree = .node .assumption [topicTree topic, .node .guard [condition]] ∧
        topLevelCondition s = .accept (.node .topLevelCondition [condition]) [] := by
  have hGap : ∀ u, gap (topic.toList ++ u) = .accept () (topic.toList ++ u) := fun u => by
    rw [gap_eq_accept, gap_topic h]
  have hTopic : ∀ u, require .topic Grammar.topic (topic.toList ++ ' ' :: u) =
      .accept (topicTree topic) (' ' :: u) := fun u =>
    require_eq_accept_iff.mpr (topic_append h stopsTopic_blank)
  have hBlank : gap (' ' :: '\x7b' :: (s ++ ['\n', '\x7d'])) =
      .accept () ('\x7b' :: (s ++ ['\n', '\x7d'])) := rfl
  rw [Grammar.assumption, bind_of_accept (hGap _), bind_of_accept (hTopic _),
    bind_of_accept hBlank, bind_eq_accept_iff]
  constructor
  · rintro ⟨guardTree, rest, hGuard, hRest⟩
    rw [bind_of_accept (gap_eq_accept rest)] at hRest
    obtain ⟨rfl, hEnd⟩ := pure_eq_accept_iff.mp hRest
    have hAccept := require_eq_accept_iff.mp hGuard
    obtain rfl := eq_nil_of_afterGap (guard_stop hAccept) hEnd
    obtain ⟨condition, rfl, hTop⟩ := guard_eq_accept_iff.mp hAccept
    exact ⟨condition, rfl, hTop⟩
  · rintro ⟨condition, rfl, hTop⟩
    have hAccept := guard_eq_accept_iff.mpr ⟨condition, rfl, hTop⟩
    exact ⟨_, [], require_eq_accept_iff.mpr hAccept, rfl⟩

theorem message_of_guarded (h : IsTopicName topic.toList) (text : List Char) :
    message (topic.toList ++ ' ' :: '\x7b' :: text) =
      .accept (messageTree topic none) (' ' :: '\x7b' :: text) := by
  have hNone : ∀ name, (none : Option String) = some name → IsIdentifier name.toList := nofun
  apply message_append h hNone stopsTopic_blank
  exact declines_keyword_of_head (c := '\x7b') rfl (by decide)

/-- The tree of a guarded message. -/
def guardedTree (topic : String) (condition : SyntaxTree) : SyntaxTree :=
  .node .event [messageTree topic none, .node .guard [condition]]

/-- What an event may be that begins with a topic and a guard: without the guard, the brace stays
behind. -/
theorem accept_of_event (h : IsTopicName topic.toList) {text : List Char}
    (hEvent : event (topic.toList ++ ' ' :: '\x7b' :: text) = .accept tree t) :
    t = ' ' :: '\x7b' :: text ∨ ∃ guardTree, guard ('\x7b' :: text) = .accept guardTree t ∧
      tree = .node .event [messageTree topic none, guardTree] := by
  rw [event, bind_of_accept (message_of_guarded h text)] at hEvent
  obtain ⟨_, rfl, hOptional⟩ := accept_of_map hEvent
  rcases accept_of_optional hOptional with ⟨-, rfl⟩ | ⟨guardTree, rfl, hGuard⟩
  · exact .inl rfl
  · have hBlank : gap (' ' :: '\x7b' :: text) = .accept () ('\x7b' :: text) := rfl
    rw [eventGuard, bind_of_accept hBlank] at hGuard
    exact .inr ⟨guardTree, hGuard, rfl⟩

theorem existence_eq_accept_iff (h : IsTopicName topic.toList) :
    (∃ rest, unaryPattern "some" .existence
        ('s' :: 'o' :: 'm' :: 'e' :: ' ' :: (topic.toList ++
          ' ' :: '\x7b' :: (s ++ ['\n', '\x7d']))) = .accept tree rest ∧ afterGap false rest = []) ↔
      ∃ condition, tree = .node .existence [guardedTree topic condition] ∧
        topLevelCondition s = .accept (.node .topLevelCondition [condition]) [] := by
  have hKeyword : ∀ u, keyword "some" ('s' :: 'o' :: 'm' :: 'e' :: ' ' :: u) =
      .accept () (' ' :: u) := fun _ => rfl
  have hGap : ∀ u, gap (' ' :: (topic.toList ++ u)) = .accept () (topic.toList ++ u) := fun u => by
    show Outcome.accept () (afterGap false (topic.toList ++ u)) = _
    rw [gap_topic h]
  have hBound : ∀ u, Declines bound (' ' :: '\x7b' :: u) := fun u => by
    apply declines_bind_of_accept (gap_eq_accept _)
    exact declines_bind (declines_keyword_of_head (c := '\x7b') rfl (by decide))
  rw [unaryPattern, bind_of_accept (hKeyword _), bind_of_accept (hGap _)]
  simp only [bind_eq_accept_iff, commit_eq_accept_iff]
  constructor
  · rintro ⟨_, ⟨eventTree, r, hEvent, bound?, rest, hOptional, hPure⟩, hEnd⟩
    obtain ⟨rfl, rfl⟩ := pure_eq_accept_iff.mp hPure
    rcases accept_of_event h hEvent with rfl | ⟨guardTree, hGuard, rfl⟩
    · rw [optional_of_declines (hBound _)] at hOptional
      cases hOptional
      cases hEnd
    have hStop := guard_stop hGuard
    rcases accept_of_optional hOptional with ⟨rfl, rfl⟩ | ⟨limit, rfl, hLimit⟩
    · obtain rfl := eq_nil_of_afterGap hStop hEnd
      obtain ⟨condition, rfl, hTop⟩ := guard_eq_accept_iff.mp hGuard
      exact ⟨condition, rfl, hTop⟩
    · have hRest := (suffix_of_derives (bound_yields hLimit) nofun).trans hStop
      exact absurd (eq_nil_of_afterGap hRest hEnd) (bound_leaves hStop hLimit)
  · rintro ⟨condition, rfl, hTop⟩
    have hGuard : optional eventGuard (' ' :: '\x7b' :: (s ++ ['\n', '\x7d'])) =
        .accept (some (.node .guard [condition])) [] := by
      apply optional_eq_accept_some_iff.mpr
      rw [eventGuard, bind_of_accept (gap_eq_accept _)]
      exact guard_eq_accept_iff.mpr ⟨condition, rfl, hTop⟩
    have hEvent : event (topic.toList ++ ' ' :: '\x7b' :: (s ++ ['\n', '\x7d'])) =
        .accept (guardedTree topic condition) [] := by
      rw [event, bind_of_accept (message_of_guarded h _), bind_of_accept hGuard]
      rfl
    exact ⟨[], ⟨guardedTree topic condition, [], hEvent, none, [], rfl, rfl⟩, rfl⟩

theorem property_eq_accept_iff (h : IsTopicName topic.toList) :
    Grammar.property ("globally: some ".toList ++ (topic.toList ++
        ' ' :: '\x7b' :: (s ++ ['\n', '\x7d']))) = .accept tree [] ↔
      ∃ condition, tree = .node .property [.node .globalScope [],
          .node .existence [guardedTree topic condition]] ∧
        topLevelCondition s = .accept (.node .topLevelCondition [condition]) [] := by
  generalize hText : topic.toList ++ ' ' :: '\x7b' :: (s ++ ['\n', '\x7d']) = text
  have hGap : gap ("globally: some ".toList ++ text) =
      .accept () ("globally".toList ++ ':' :: ' ' :: 's' :: 'o' :: 'm' :: 'e' :: ' ' :: text) := rfl
  have hScope : require .scope scope
      ("globally".toList ++ ':' :: ' ' :: 's' :: 'o' :: 'm' :: 'e' :: ' ' :: text) =
      .accept (.node .globalScope []) (':' :: ' ' :: 's' :: 'o' :: 'm' :: 'e' :: ' ' :: text) := rfl
  have hColonGap : gap (':' :: ' ' :: 's' :: 'o' :: 'm' :: 'e' :: ' ' :: text) =
      .accept () (':' :: ' ' :: 's' :: 'o' :: 'm' :: 'e' :: ' ' :: text) := rfl
  have hColon : require .colonAfterScope (literal ":")
      (':' :: ' ' :: 's' :: 'o' :: 'm' :: 'e' :: ' ' :: text) =
      .accept () (' ' :: 's' :: 'o' :: 'm' :: 'e' :: ' ' :: text) := rfl
  have hBlank : gap (' ' :: 's' :: 'o' :: 'm' :: 'e' :: ' ' :: text) =
      .accept () ('s' :: 'o' :: 'm' :: 'e' :: ' ' :: text) := rfl
  have hPattern : pattern ('s' :: 'o' :: 'm' :: 'e' :: ' ' :: text) =
      unaryPattern "some" .existence ('s' :: 'o' :: 'm' :: 'e' :: ' ' :: text) := by
    have hKeyword : keyword "some" ('s' :: 'o' :: 'm' :: 'e' :: ' ' :: text) =
        .accept () (' ' :: text) := rfl
    exact pattern_of_keyword (by simp) hKeyword
  rw [Grammar.property, bind_of_accept hGap, bind_of_accept hScope, bind_of_accept hColonGap,
    bind_of_accept hColon, bind_of_accept hBlank]
  simp only [bind_eq_accept_iff, require_eq_accept_iff, hPattern]
  constructor
  · rintro ⟨what, rest, hWhat, _, _, hGap, hPure⟩
    cases hGap
    obtain ⟨rfl, hEnd⟩ := pure_eq_accept_iff.mp hPure
    rw [← hText] at hWhat
    obtain ⟨condition, rfl, hTop⟩ := (existence_eq_accept_iff h).mp ⟨rest, hWhat, hEnd⟩
    exact ⟨condition, rfl, hTop⟩
  · rintro ⟨condition, rfl, hTop⟩
    obtain ⟨rest, hWhat, hEnd⟩ := (existence_eq_accept_iff h).mpr ⟨condition, rfl, hTop⟩
    rw [hText] at hWhat
    exact ⟨_, rest, hWhat, (), _, rfl, by rw [hEnd]; rfl⟩

end

end Grammar
end TopicSpec
