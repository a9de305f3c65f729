import TopicSpec.Proofs.Grammar.Forms
import TopicSpec.Proofs.Phrase.Stated
import TopicSpec.Proofs.Typing.Admission

/-! # The three forms agree

An assumption and the property of a single event say the same of their guard, and without schemas
the guard is accepted as the condition is that stands alone, as long as it refers to no event. -/

namespace TopicSpec
open Grammar Scan
set_option autoImplicit false

variable {resolver : Option Resolver} {topic : String} {condition : SyntaxTree} {g : Expr}

/-! ## Trees -/

namespace Phrase

theorem ofTree_guardedTree (topic : String) (condition : SyntaxTree) :
    ofTree resolver (guardedTree topic condition) = do
      let phrase ← ofTree resolver (.node .guard [condition])
      return .event ⟨topic, none, ← phrase.toGuard .event⟩ := by
  rw [guardedTree, ofTree, ofTrees, ofTree_messageTree, ofTrees]
  cases ofTree resolver (.node .guard [condition]) <;> rfl

/-- A property of a single event has the guard of the event, if it has one. -/
theorem ofTree_existence (topic : String) (condition : SyntaxTree) :
    ofTree resolver (.node .existence [guardedTree topic condition]) = do
      let phrase ← ofTree resolver (.node .guard [condition])
      let guard ← phrase.toGuard .event
      return .pattern (.existence ⟨topic, none, guard⟩ (.infinity false)) := by
  rw [ofTree, ofTrees, ofTree_guardedTree, ofTrees]
  cases ofTree resolver (.node .guard [condition]) with
  | error e => rfl
  | ok phrase => cases phrase <;> rfl

end Phrase

/-! ## Texts -/

/-- The assumption of a topic with the condition for its guard, on a line of its own. -/
def guardedText (topic condition : String) : String :=
  topic ++ " \x7b" ++ condition ++ "\n\x7d"

/-- The property that some message satisfies the assumption. -/
def someText (topic condition : String) : String :=
  "globally: some " ++ guardedText topic condition

theorem toList_guardedText (topic condition : String) :
    (guardedText topic condition).toList =
      topic.toList ++ ' ' :: '\x7b' :: (condition.toList ++ ['\n', '\x7d']) := by
  simp [guardedText]

/-- The trees of the three texts. -/
inductive ReadsForms (topic text : String) : Prop where
  | tree (condition : SyntaxTree) :
    readTree .predicate text = .ok (.node .topLevelCondition [condition]) →
    readTree .assumption (guardedText topic text) =
      .ok (.node .assumption [topicTree topic, .node .guard [condition]]) →
    readTree .property (someText topic text) =
      .ok (.node .property [.node .globalScope [],
        .node .existence [guardedTree topic condition]]) →
    ReadsForms topic text
  | malformed (e e' e'' : SyntaxError) :
    readTree .predicate text = .error (.malformed e) →
    readTree .assumption (guardedText topic text) = .error (.malformed e') →
    readTree .property (someText topic text) = .error (.malformed e'') →
    ReadsForms topic text

theorem readsForms (h : IsTopicName topic.toList) (text : String) : ReadsForms topic text := by
  have hAssumption : ∀ tree, readTree .assumption (guardedText topic text) = .ok tree ↔
      ∃ condition, tree = .node .assumption [topicTree topic, .node .guard [condition]] ∧
        readTree .predicate text = .ok (.node .topLevelCondition [condition]) := by
    intro tree
    simp only [readTree_eq_ok_iff, Form.production, toList_guardedText]
    exact assumption_eq_accept_iff h
  have hProperty : ∀ tree, readTree .property (someText topic text) = .ok tree ↔
      ∃ condition, tree = .node .property [.node .globalScope [],
          .node .existence [guardedTree topic condition]] ∧
        readTree .predicate text = .ok (.node .topLevelCondition [condition]) := by
    intro tree
    simp only [readTree_eq_ok_iff, Form.production, someText, String.toList_append,
      toList_guardedText]
    exact property_eq_accept_iff h
  -- Each of the two texts has a tree only if the condition has one, and then the tree with it.
  rcases readTree_cases .predicate text with ⟨tree, hTree⟩ | ⟨e, hError⟩
  · cases derives_of_readTree hTree with
    | topLevelCondition _ _ _ =>
      exact .tree _ hTree ((hAssumption _).mpr ⟨_, rfl, hTree⟩) ((hProperty _).mpr ⟨_, rfl, hTree⟩)
  have hNone : ∀ tree, readTree .predicate text ≠ .ok tree := by
    intro tree hTree
    rw [hError] at hTree
    cases hTree
  rcases readTree_cases .assumption (guardedText topic text) with ⟨_, hTree⟩ | ⟨e', hError'⟩
  · obtain ⟨condition, -, hCondition⟩ := (hAssumption _).mp hTree
    exact absurd hCondition (hNone _)
  rcases readTree_cases .property (someText topic text) with ⟨_, hTree⟩ | ⟨e'', hError''⟩
  · obtain ⟨condition, -, hCondition⟩ := (hProperty _).mp hTree
    exact absurd hCondition (hNone _)
  exact .malformed e e' e'' hError hError' hError''

/-! ## Checks -/

/-- The property that some message satisfies the guard of an assumption. -/
def Assumption.asProperty (assumption : Assumption) : Property :=
  ⟨.global, .existence ⟨assumption.topic, none, assumption.guard⟩ (.infinity false)⟩

namespace Assumption

theorem checkBinding_asProperty (assumption : Assumption) :
    assumption.asProperty.checkBinding = assumption.checkBinding := by
  have hEvent : assumption.asProperty.checkBinding = (do
      Event.checkBinding ⟨assumption.topic, none, assumption.guard⟩ [] []
      pure ()) := rfl
  rw [hEvent, Event.checkBinding, Assumption.checkBinding, Event.references]
  cases assumption.guard.references with
  | cons name names => rfl
  | nil =>
    show (assumption.guard.checkShadowing [] [] >>= fun _ => pure ()) =
      assumption.guard.checkShadowing [] []
    cases assumption.guard.checkShadowing [] [] <;> rfl

/-- The guard passes the one check exactly if it passes the other. -/
theorem checkProperty_asProperty (assumption : Assumption) :
    Phrase.checkProperty resolver assumption.asProperty =
      Phrase.checkAssumption resolver assumption := by
  rw [Phrase.checkProperty, Phrase.checkAssumption, checkBinding_asProperty]
  apply bind_congr
  intro _
  let env := Typing.Environment.mk (some assumption.topic) [] resolver
  show (liftM (env.checkCondition assumption.guard) >>= fun _ => pure () : Except SpecError Unit) =
    liftM (env.checkCondition assumption.guard)
  cases env.checkCondition assumption.guard <;> rfl

end Assumption

/-! ## What is stated -/

theorem stated_forms (h : IsTopicName topic.toList) (text : String) :
    SameReading ((Assumption.stated (guardedText topic text)).map Assumption.asProperty)
      (Property.stated (someText topic text)) := by
  cases readsForms h text with
  | malformed e e' e'' _ hAssumption hProperty =>
    rw [Assumption.stated, Property.stated, hAssumption, hProperty]
    exact .inr ⟨⟨e', rfl⟩, e'', rfl⟩
  | tree condition _ hAssumption hProperty =>
    apply Or.inl
    rw [Assumption.stated, Property.stated, hAssumption, hProperty]
    cases derives_of_readTree hAssumption with
    | assumption _ _ _ hGuard _ =>
      simp only [ok_bind, SyntaxTree.children, Phrase.ofTrees, Phrase.ofTree_topicTree,
        Phrase.ofTree_existence]
      cases hPhrase : Phrase.ofTree none (.node .guard [condition]) with
      | error e => rfl
      | ok phrase =>
        obtain ⟨g, rfl⟩ := Phrase.eq_guard_of_sense (Phrase.sense_of_derives hGuard hPhrase)
        rfl

theorem error_of_map {α β : Type} {f : α → β} {r : Except SpecError α} {e : SpecError}
    (h : r.map f = .error e) : r = .error e := by
  cases r with
  | error e' => exact congrArg _ (Except.error.inj h)
  | ok a => cases h

theorem SameReading.map {α β : Type} {r r' : Except SpecError α} (h : SameReading r r')
    (f : α → β) : SameReading (r.map f) (r'.map f) := by
  rcases h with rfl | ⟨⟨e, rfl⟩, e', rfl⟩
  · exact .inl rfl
  · exact .inr ⟨⟨e, rfl⟩, e', rfl⟩

/-- A guarded event is read alike whether it is assumed or has to happen. -/
theorem reading_forms (resolver : Option Resolver) (h : IsTopicName topic.toList) (text : String) :
    SameReading ((Assumption.ofText resolver (guardedText topic text)).map Assumption.asProperty)
      (Property.ofText resolver (someText topic text)) := by
  rw [Assumption.ofText_eq, Property.ofText_eq]
  rcases stated_forms h text with hSame | ⟨⟨e, hAssumption⟩, e', hProperty⟩
  · apply Or.inl
    rw [← hSame]
    cases Assumption.stated (guardedText topic text) with
    | error e => rfl
    | ok assumption =>
      show (do Phrase.checkAssumption resolver assumption; return assumption).map _ =
        (do Phrase.checkProperty resolver assumption.asProperty; return assumption.asProperty)
      rw [Assumption.checkProperty_asProperty]
      cases Phrase.checkAssumption resolver assumption <;> rfl
  · rw [error_of_map hAssumption, hProperty]
    exact .inr ⟨⟨e, rfl⟩, e', rfl⟩

/-! ## Without schemas -/

/-- A condition may stand as a guard where it is stated on its own. -/
theorem stated_guard (h : IsTopicName topic.toList) {text : String}
    (hStated : Expr.stated text = .ok g)
    (hCheck : (Typing.Environment.withResolver none).checkCondition g = .ok ()) :
    Assumption.stated (guardedText topic text) = .ok ⟨topic, g⟩ := by
  cases readsForms h text with
  | malformed _ _ _ hPredicate _ _ =>
    rw [Expr.stated, hPredicate] at hStated
    cases hStated
  | tree condition hPredicate hAssumption _ =>
    rw [Expr.stated, hPredicate, ok_bind] at hStated
    cases derives_of_readTree hPredicate with
    | topLevelCondition _ hCondition _ =>
      obtain ⟨phrases, hPhrases, hMatch⟩ := ok_of_bind hStated
      obtain ⟨phrase, hPhrase, hPure⟩ := ok_of_bind hPhrases
      obtain rfl := Except.ok.inj hPure
      obtain ⟨e, ty, rfl⟩ := Phrase.eq_expr_of_sense (Phrase.sense_of_derives hCondition hPhrase)
      obtain rfl : e = g := Except.ok.inj hMatch
      have hPart : Nonterminal.level .condition ≠ .topLevelCondition := by simp
      -- The check of the whole condition admits what the reading of a guard admits.
      have hWritten := Phrase.written_of_derives hCondition rfl hPart hPhrase
      have hExpect := Typing.Environment.expect_of_checkCondition .guard hWritten hCheck
      have hGuard := Phrase.ofTree_guard hPhrase hExpect
      rw [Assumption.stated, hAssumption]
      simp only [ok_bind, SyntaxTree.children, Phrase.ofTrees, Phrase.ofTree_topicTree, hGuard]
      rfl

theorem stated_condition (h : IsTopicName topic.toList) {text : String} {assumption : Assumption}
    (hStated : Assumption.stated (guardedText topic text) = .ok assumption) :
    Expr.stated text = .ok assumption.guard := by
  cases readsForms h text with
  | malformed _ _ _ _ hAssumption _ =>
    rw [Assumption.stated, hAssumption] at hStated
    cases hStated
  | tree condition hPredicate hAssumption _ =>
    rw [Assumption.stated, hAssumption, ok_bind] at hStated
    obtain ⟨phrases, hPhrases, hMatch⟩ := ok_of_bind hStated
    obtain ⟨p, q, hTopic, hGuard, rfl⟩ := ofTrees_two hPhrases
    obtain rfl := Except.ok.inj hTopic
    obtain ⟨phrase, hPhrase, hNode⟩ := Phrase.children_of_one hGuard
    obtain ⟨⟨e, ty⟩, hExpr, hRest⟩ := ok_of_bind hNode
    obtain rfl := Phrase.eq_of_toExpr hExpr
    obtain ⟨_, _, hPure⟩ := ok_of_bind hRest
    obtain rfl := Except.ok.inj hPure
    obtain rfl := Except.ok.inj hMatch
    rw [Expr.stated, hPredicate]
    simp only [ok_bind, SyntaxTree.children, Phrase.ofTrees, hPhrase]
    rfl

theorem guard_eq_ok_iff (h : IsTopicName topic.toList) (text : String) :
    (Assumption.ofText none (guardedText topic text)).map (·.guard) = .ok g ↔
      Expr.ofText none text = .ok g ∧ ∀ name, ¬g.Free name := by
  rw [Expr.ofText_eq_ok_iff]
  constructor
  · intro hGuard
    obtain ⟨assumption, hText, rfl⟩ := ok_of_map hGuard
    obtain ⟨hStated, hBinding, hCheck⟩ := Assumption.ofText_eq_ok_iff.mp hText
    obtain ⟨hClosed, hShadowing⟩ := Assumption.checkBinding_eq_ok_iff.mp hBinding
    rw [Typing.Environment.checkCondition_topic _ none] at hCheck
    exact ⟨⟨stated_condition h hStated, hShadowing, hCheck⟩, hClosed⟩
  · rintro ⟨⟨hStated, hShadowing, hCheck⟩, hClosed⟩
    have hBinding : (Assumption.mk topic g).checkBinding = .ok () :=
      Assumption.checkBinding_eq_ok_iff.mpr ⟨hClosed, hShadowing⟩
    have hGuard := stated_guard h hStated hCheck
    rw [Typing.Environment.withResolver,
      Typing.Environment.checkCondition_topic _ (some topic)] at hCheck
    rw [Assumption.ofText_eq_ok_iff.mpr ⟨hGuard, hBinding, hCheck⟩]
    rfl

/-- The three forms agree on guards. Under any schemas the assumption of a topic and the property
that some message is published there take the same guard from the same condition, refuse it for the
same reason, or are both malformed; without schemas they take what reads as a condition on its own,
as long as it refers to no event. -/
theorem forms_agree_on_guards (h : IsTopicName topic.toList) (text : String) :
    (∀ resolver, SameReading
      ((Assumption.ofText resolver (guardedText topic text)).map (·.guard))
      ((Property.ofText resolver (someText topic text)).map (·.pattern.behaviour.guard))) ∧
    ∀ g, ((Assumption.ofText none (guardedText topic text)).map (·.guard) = .ok g ∧
        (Property.ofText none (someText topic text)).map (·.pattern.behaviour.guard) = .ok g) ↔
      Expr.ofText none text = .ok g ∧ ∀ name, ¬g.Free name := by
  have hSame : ∀ resolver, SameReading
      ((Assumption.ofText resolver (guardedText topic text)).map (·.guard))
      ((Property.ofText resolver (someText topic text)).map (·.pattern.behaviour.guard)) := by
    intro resolver
    have hForms := (reading_forms resolver h text).map (·.pattern.behaviour.guard)
    cases hText : Assumption.ofText resolver (guardedText topic text) <;> rwa [hText] at hForms
  refine ⟨hSame, fun g => ?_⟩
  rw [← guard_eq_ok_iff h text]
  constructor
  · exact fun hBoth => hBoth.1
  · intro hGuard
    rcases hSame none with hEq | ⟨⟨e, hError⟩, -⟩
    · exact ⟨hGuard, hEq ▸ hGuard⟩
    · rw [hError] at hGuard
      cases hGuard

theorem comment_behind_guard_is_skipped :
    ∃ g, Expr.ofText none "level > 3 # bright \x7d" = .ok g ∧
      (Property.ofText none (someText "/lamp" "level > 3 # bright \x7d")).map
        (·.pattern.behaviour.guard) = .ok g := by
  have hTopic : IsTopicName "/lamp".toList :=
    ⟨['/'], "lamp".toList, [], rfl, .inr (.inl rfl),
      ⟨'l', "amp".toList, rfl, rfl, List.all_eq_true.mp rfl⟩, nofun⟩
  have hClosed : (Expr.ofText none "level > 3 # bright \x7d").toOption.map Expr.references =
      some [] := by decide +kernel
  cases hText : Expr.ofText none "level > 3 # bright \x7d" with
  | error e =>
    rw [hText] at hClosed
    cases hClosed
  | ok g =>
    rw [hText] at hClosed
    have hReferences : g.references = [] := Option.some.inj hClosed
    refine ⟨g, rfl, (((forms_agree_on_guards hTopic _).2 g).mpr ⟨hText, ?_⟩).2⟩
    intro name hFree
    rw [← Expr.mem_freeOccurrences_iff, ← Expr.mem_references_iff, hReferences] at hFree
    cases hFree

end TopicSpec
