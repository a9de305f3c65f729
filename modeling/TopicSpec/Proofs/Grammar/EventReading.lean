import TopicSpec.Grammar.Specification
import TopicSpec.Proofs.Scan.LongestMatch

/-! # Reading events

What the scanners of topics, messages and events answer to the texts of these, whatever follows. -/

namespace TopicSpec.Grammar
open Scan
set_option autoImplicit false

variable {s t word : List Char}

/-! ## Topics -/

/-- No topic name goes on at the front of a text. -/
structure StopsTopic (s : List Char) : Prop where
  word : StopsWord s
  slash : ∀ t, s ≠ '/' :: t

theorem stopsTopic_blank : StopsTopic (' ' :: s) :=
  ⟨stops_cons_iff.mpr (by decide), fun _ h => absurd (List.cons.inj h).1 (by decide)⟩

theorem topicName_append (h : IsTopicName word) (hStops : StopsTopic t) :
    topicName (word ++ t) = .accept word t := by
  have hSlash : t.head? ≠ some '/' := by
    intro hHead
    obtain ⟨u, rfl⟩ := List.head?_eq_some_iff.mp hHead
    exact hStops.slash u rfl
  have hEnd : Stops (fun c => isWordChar c || c == '/') t := by
    intro c hc
    rw [Bool.or_eq_false_iff]
    exact ⟨hStops.word c hc, beq_false_of_ne fun hEq => hSlash (hEq ▸ hc)⟩
  exact topicName_eq_accept_iff.mpr ⟨rfl, tailIn_topicName.isLongest h hEnd, hSlash⟩

/-- The tree of a topic. -/
def topicTree (topic : String) : SyntaxTree := .node .topicName [.leaf ⟨.topicName, topic⟩]

theorem topic_append {topic : String} (h : IsTopicName topic.toList) (hStops : StopsTopic t) :
    Grammar.topic (topic.toList ++ t) = .accept (topicTree topic) t := by
  rw [Grammar.topic, bind_of_accept (topicName_append h hStops), SyntaxTree.token,
    String.ofList_toList]
  rfl

/-- No gap stands at the front of a topic. -/
theorem gap_topic (h : IsTopicName word) (t : List Char) :
    afterGap false (word ++ t) = word ++ t := by
  obtain ⟨lead, first, more, rfl, hLead, ⟨c, name, rfl, hStart, -⟩, -⟩ := h
  rcases hLead with rfl | rfl | rfl
  · exact afterGap_of_class (isWordChar_of_isWordStart hStart) rfl
  · rfl
  · rfl

theorem stopsWord_of_topicName (h : topicName s = .accept word t) : StopsWord t := by
  obtain ⟨rfl, hLongest, -⟩ := topicName_eq_accept_iff.mp h
  exact hLongest.stops IsTopicName.concat

/-! ## Messages -/

/-- The tree of a message. -/
def messageTree (topic : String) (alias? : Option String) : SyntaxTree :=
  .node .message (topicTree topic :: (alias?.map fun name => .leaf ⟨.name, name⟩).toList)

/-- The text of an alias, with the blank before it. -/
def aliasChars : Option String → List Char
  | none => []
  | some name => ' ' :: 'a' :: 's' :: ' ' :: name.toList

theorem aliasName_append {name : String} (h : IsIdentifier name.toList) (hStops : StopsWord t) :
    aliasName (aliasChars (some name) ++ t) = .accept (.leaf ⟨.name, name⟩) t := by
  have hWord : require .aliasName identifier (name.toList ++ t) = .accept name.toList t :=
    require_eq_accept_iff.mpr (identifier_eq_accept_iff.mpr ⟨rfl, h, hStops⟩)
  have hGap : gap (' ' :: (name.toList ++ t)) = .accept () (name.toList ++ t) := by
    obtain ⟨c, more, hName, hStart, -⟩ := h
    rw [hName]
    exact congrArg (Outcome.accept ()) (afterGap_of_class (isWordChar_of_isWordStart hStart) rfl)
  have hBlank : gap (' ' :: 'a' :: 's' :: ' ' :: (name.toList ++ t)) =
      .accept () ('a' :: 's' :: ' ' :: (name.toList ++ t)) := rfl
  have hAs : keyword "as" ('a' :: 's' :: ' ' :: (name.toList ++ t)) =
      .accept () (' ' :: (name.toList ++ t)) := rfl
  show aliasName (' ' :: 'a' :: 's' :: ' ' :: (name.toList ++ t)) = _
  rw [aliasName, bind_of_accept hBlank, bind_of_accept hAs, bind_of_accept hGap,
    bind_of_accept hWord, SyntaxTree.token, String.ofList_toList]
  rfl

theorem message_append {topic : String} {alias? : Option String} (h : IsTopicName topic.toList)
    (hName : ∀ name, alias? = some name → IsIdentifier name.toList) (hStops : StopsTopic t)
    (hAlias : Declines (keyword "as") (afterGap false t)) :
    message (topic.toList ++ (aliasChars alias? ++ t)) = .accept (messageTree topic alias?) t := by
  cases alias? with
  | none =>
    have hNone : optional aliasName t = .accept none t :=
      optional_of_declines (declines_bind_of_accept (gap_eq_accept t) (declines_bind hAlias))
    show message (topic.toList ++ t) = _
    rw [message, bind_of_accept (topic_append h hStops), bind_of_accept hNone]
    rfl
  | some name =>
    have hSome : optional aliasName (aliasChars (some name) ++ t) =
        .accept (some (.leaf ⟨.name, name⟩)) t :=
      optional_eq_accept_some_iff.mpr (aliasName_append (hName name rfl) hStops.word)
    have hBlank : StopsTopic (aliasChars (some name) ++ t) := stopsTopic_blank
    rw [message, bind_of_accept (topic_append h hBlank), bind_of_accept hSome]
    rfl

/-! ## Patterns -/

/-- A pattern that begins with its word is no other pattern. -/
theorem decides_unaryPattern {keyword : String} {rule : Rule}
    (h : Scan.keyword keyword s = .accept () t) : Decides (unaryPattern keyword rule) s := by
  apply decides_bind (decides_of_accept h)
  intro _ u _
  apply decides_bind (decides_of_accept (gap_eq_accept u))
  intro _ v _
  apply decides_bind (decides_commit _ _)
  intro _ w _
  apply decides_bind (decides_optional _ _)
  exact fun _ _ _ => decides_of_accept rfl

/-- What neither of the two words introduces is a pattern of two events. -/
theorem pattern_of_declines (h : ∀ word ∈ ["some", "no"], Declines (keyword word) s) :
    pattern s = binaryPattern s := by
  have hSome : Declines (unaryPattern "some" .existence) s := declines_bind (h _ (by simp))
  have hNo : Declines (unaryPattern "no" .absence) s := declines_bind (h _ (by simp))
  rw [pattern, firstOf_of_declines hSome, firstOf_of_declines hNo]
  rfl

theorem pattern_of_keyword {word : String} {rule : Rule}
    (hRule : (rule, word) ∈ [(Rule.existence, "some"), (.absence, "no")])
    (h : keyword word s = .accept () t) : pattern s = unaryPattern word rule s := by
  simp only [List.mem_cons, Prod.mk.injEq, List.not_mem_nil, or_false] at hRule
  rcases hRule with ⟨rfl, rfl⟩ | ⟨rfl, rfl⟩
  · exact orElse_of_decides (decides_unaryPattern h)
  · have hSome : Declines (unaryPattern "some" .existence) s := by
      apply declines_bind
      rw [(keyword_eq_accept_iff.mp h).1]
      exact declines_keyword_of_head rfl (by decide)
    rw [pattern, firstOf_of_declines hSome]
    exact orElse_of_decides (decides_unaryPattern h)

end TopicSpec.Grammar
