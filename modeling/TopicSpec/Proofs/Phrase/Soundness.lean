import TopicSpec.Proofs.Phrase.Integrity
import TopicSpec.Proofs.Phrase.Stated

/-! # What accepted texts give

The events of a property are those of the nodes of its tree, so each of them has a guard just if its
node has one. The conditions of a property, of an assumption and on their own hold no form that the
grammar does not have, no name that is none, and no literal but those of the text. -/

namespace TopicSpec
open Grammar Scan
set_option autoImplicit false

/-- A node of the tree says the event. It has either a message alone or a guard in braces behind it,
and only with the message alone is there no condition. -/
def SyntaxTree.Says (tree : SyntaxTree) (event : Event) : Prop :=
  ∃ children, tree.Has (.node .event children) ∧
    Phrase.ofTree none (.node .event children) = .ok (.event event) ∧
    ((∃ message, children = [message]) ∧ event.guard = .vacuous ∨
      (∃ message condition, children = [message, .node .guard [condition]]) ∧
        event.guard.Sound tree.leaves)

structure Event.Sound (tree : SyntaxTree) (event : Event) : Prop where
  topic : IsTopicName event.topic.toList
  named : ∀ name, event.alias? = some name → IsIdentifier name.toList
  said : tree.Says event

namespace SyntaxTree

variable {tree child : SyntaxTree} {rule : Rule} {children : List SyntaxTree} {event : Event}

theorem Says.inside (h : child.Says event) (hChild : child ∈ children) :
    (node rule children).Says event := by
  obtain ⟨parts, hHas, hPhrase, hGuard⟩ := h
  refine ⟨parts, .inside hChild hHas, hPhrase, hGuard.imp_right fun ⟨hGuarded, hSound⟩ => ?_⟩
  exact ⟨hGuarded, hSound.mono (leaves_subset_leavesAll hChild)⟩

end SyntaxTree

namespace Phrase

variable {tree : SyntaxTree} {s t : List Char} {event : Event}

theorem sound_of_guard {e : Expr} (h : Derives .guard tree s t)
    (hTree : ofTree none tree = .ok (.guard e)) :
    (∃ condition, tree = .node .guard [condition]) ∧ e.Sound tree.leaves := by
  cases h with
  | guard _ _ hCondition _ _ =>
    obtain ⟨p, hChild, hNode⟩ := children_of_one hTree
    obtain ⟨condition, ty, rfl⟩ := eq_expr_of_sense (sense_of_derives hCondition hChild)
    obtain ⟨_, hSame, hRest⟩ := ok_of_bind hNode
    obtain rfl := Except.ok.inj hSame
    obtain ⟨_, -, hGuard⟩ := ok_of_bind hRest
    obtain rfl := Phrase.guard.inj (Except.ok.inj hGuard)
    have hReads := reads_of_derives hCondition rfl nofun hChild
    exact ⟨⟨_, rfl⟩, (hReads.written.sound hReads.literals).mono
      (SyntaxTree.leaves_subset_leavesAll List.mem_cons_self)⟩

theorem says_of_event (h : Derives .event tree s t)
    (hTree : ofTree none tree = .ok (.event event)) : tree.Says event := by
  have hPhrase := hTree
  cases h with
  | event hMessage =>
    obtain ⟨p, hChild, hNode⟩ := children_of_one hTree
    obtain ⟨name, alias?, rfl, -⟩ := said_of_message hMessage hChild
    obtain rfl := Phrase.event.inj (Except.ok.inj hNode)
    exact ⟨_, .self _, hPhrase, .inl ⟨⟨_, rfl⟩, rfl⟩⟩
  | guardedEvent hMessage _ hGuard =>
    obtain ⟨p, q, hChild, hGuardChild, hNode⟩ := children_of_two hTree
    obtain ⟨name, alias?, rfl, -⟩ := said_of_message hMessage hChild
    obtain ⟨condition, rfl⟩ := eq_guard_of_sense (sense_of_derives hGuard hGuardChild)
    obtain rfl := Phrase.event.inj (Except.ok.inj hNode)
    obtain ⟨⟨_, rfl⟩, hSound⟩ := sound_of_guard hGuard hGuardChild
    exact ⟨_, .self _, hPhrase, .inr ⟨⟨_, _, rfl⟩,
      hSound.mono (SyntaxTree.leaves_subset_leavesAll (by simp))⟩⟩

theorem says_of_delimiter {n : Nonterminal} (hDelimiter : n ∈ [.activator, .terminator])
    (h : Derives n tree s t) (hTree : ofTree none tree = .ok (.event event)) :
    tree.Says event := by
  cases h with
  | activator hEvent | terminator hEvent =>
    obtain ⟨p, hChild, hNode⟩ := children_of_one hTree
    obtain ⟨found, rfl⟩ := eq_event_of_sense (sense_of_derives hEvent hChild)
    obtain rfl := Phrase.event.inj (Except.ok.inj hNode)
    exact (says_of_event hEvent hChild).inside List.mem_cons_self
  | _ => simp at hDelimiter

theorem says_of_scope {scope : Scope} (h : Derives .scope tree s t)
    (hTree : ofTree none tree = .ok (.scope scope)) :
    (∀ event, scope.activator? = some event → tree.Says event) ∧
      ∀ event, scope.terminator? = some event → tree.Says event := by
  cases h with
  | globalScope =>
    obtain rfl := Phrase.scope.inj (Except.ok.inj hTree)
    exact ⟨nofun, nofun⟩
  | afterScope _ _ hStart _ =>
    obtain ⟨p, hChild, hNode⟩ := children_of_one hTree
    obtain ⟨activator, rfl⟩ := eq_event_of_sense (sense_of_derives hStart hChild)
    obtain rfl := Phrase.scope.inj (Except.ok.inj hNode)
    have hActivator := says_of_delimiter (by decide) hStart hChild
    exact ⟨fun _ hEvent => Option.some.inj hEvent ▸ hActivator.inside List.mem_cons_self, nofun⟩
  | afterUntilScope _ _ hStart _ _ _ hStop =>
    obtain ⟨p, q, hChild, hStopChild, hNode⟩ := children_of_two hTree
    obtain ⟨activator, rfl⟩ := eq_event_of_sense (sense_of_derives hStart hChild)
    obtain ⟨terminator, rfl⟩ := eq_event_of_sense (sense_of_derives hStop hStopChild)
    obtain rfl := Phrase.scope.inj (Except.ok.inj hNode)
    have hActivator := says_of_delimiter (by decide) hStart hChild
    have hTerminator := says_of_delimiter (by decide) hStop hStopChild
    exact ⟨fun _ hEvent => Option.some.inj hEvent ▸ hActivator.inside List.mem_cons_self,
      fun _ hEvent => Option.some.inj hEvent ▸ hTerminator.inside (by simp)⟩
  | untilScope _ _ hStop =>
    obtain ⟨p, hChild, hNode⟩ := children_of_one hTree
    obtain ⟨terminator, rfl⟩ := eq_event_of_sense (sense_of_derives hStop hChild)
    obtain rfl := Phrase.scope.inj (Except.ok.inj hNode)
    have hTerminator := says_of_delimiter (by decide) hStop hChild
    exact ⟨nofun, fun _ hEvent => Option.some.inj hEvent ▸ hTerminator.inside List.mem_cons_self⟩

theorem says_of_pattern {pattern : Pattern} (h : Derives .pattern tree s t)
    (hTree : ofTree none tree = .ok (.pattern pattern)) :
    ∀ event ∈ pattern.spoken, tree.Says event := by
  cases h with
  | unaryPattern hRule _ _ hBehaviour =>
    obtain ⟨p, hChild, hNode⟩ := children_of_one hTree
    obtain ⟨behaviour, rfl⟩ := eq_event_of_sense (sense_of_derives hBehaviour hChild)
    obtain ⟨_, hSame, hSpoken, -⟩ := pattern_of_unary hRule (.inl rfl) hNode
    obtain rfl := Phrase.pattern.inj hSame
    have hSays := says_of_event hBehaviour hChild
    simpa [hSpoken] using hSays.inside List.mem_cons_self
  | boundedUnaryPattern hRule _ _ hBehaviour hLimit =>
    obtain ⟨p, q, hChild, hLimitChild, hNode⟩ := children_of_two hTree
    obtain ⟨behaviour, rfl⟩ := eq_event_of_sense (sense_of_derives hBehaviour hChild)
    obtain ⟨time, rfl⟩ := eq_seconds_of_sense (sense_of_derives hLimit hLimitChild)
    obtain ⟨_, hSame, hSpoken, -⟩ := pattern_of_unary hRule (.inr ⟨time, rfl⟩) hNode
    obtain rfl := Phrase.pattern.inj hSame
    have hSays := says_of_event hBehaviour hChild
    simpa [hSpoken] using hSays.inside List.mem_cons_self
  | binaryPattern hRule hLeft _ _ _ hRight =>
    obtain ⟨p, q, hLeftChild, hRightChild, hNode⟩ := children_of_two hTree
    obtain ⟨left, rfl⟩ := eq_event_of_sense (sense_of_derives hLeft hLeftChild)
    obtain ⟨right, rfl⟩ := eq_event_of_sense (sense_of_derives hRight hRightChild)
    obtain ⟨_, hSame, hSpoken, -⟩ := pattern_of_binary hRule (.inl rfl) hNode
    obtain rfl := Phrase.pattern.inj hSame
    have hLeftSays := says_of_event hLeft hLeftChild
    have hRightSays := says_of_event hRight hRightChild
    rw [hSpoken]
    intro event hEvent
    rcases List.mem_pair.mp hEvent with rfl | rfl
    · exact hLeftSays.inside (by simp)
    · exact hRightSays.inside (by simp)
  | boundedBinaryPattern hRule hLeft _ _ _ hRight hLimit =>
    obtain ⟨p, q, r, hLeftChild, hRightChild, hLimitChild, hNode⟩ := children_of_three hTree
    obtain ⟨left, rfl⟩ := eq_event_of_sense (sense_of_derives hLeft hLeftChild)
    obtain ⟨right, rfl⟩ := eq_event_of_sense (sense_of_derives hRight hRightChild)
    obtain ⟨time, rfl⟩ := eq_seconds_of_sense (sense_of_derives hLimit hLimitChild)
    obtain ⟨_, hSame, hSpoken, -⟩ := pattern_of_binary hRule (.inr ⟨time, rfl⟩) hNode
    obtain rfl := Phrase.pattern.inj hSame
    have hLeftSays := says_of_event hLeft hLeftChild
    have hRightSays := says_of_event hRight hRightChild
    rw [hSpoken]
    intro event hEvent
    rcases List.mem_pair.mp hEvent with rfl | rfl
    · exact hLeftSays.inside (by simp)
    · exact hRightSays.inside (by simp)

end Phrase

/-! ## Whole texts -/

section
variable {text : String} {tree : SyntaxTree}

theorem Property.says_of_stated {property : Property} (h : Property.stated text = .ok property)
    (hTree : readTree .property text = .ok tree) :
    ∀ slot event, property.event? slot = some event → tree.Says event := by
  obtain ⟨_, hRead, hRest⟩ := ok_of_bind h
  obtain rfl := Except.ok.inj (hRead.symm.trans hTree)
  cases derives_of_readTree hRead with
  | property _ hScope _ _ _ hPattern _ =>
    obtain ⟨phrases, hPhrases, hMatch⟩ := ok_of_bind hRest
    obtain ⟨p, q, hP, hQ, rfl⟩ := ofTrees_two hPhrases
    obtain ⟨scope, rfl⟩ := Phrase.eq_scope_of_sense (Phrase.sense_of_derives hScope hP)
    obtain ⟨pattern, rfl⟩ := Phrase.eq_pattern_of_sense (Phrase.sense_of_derives hPattern hQ)
    obtain rfl := Except.ok.inj hMatch
    obtain ⟨hActivator, hTerminator⟩ := Phrase.says_of_scope hScope hP
    have hSpoken := Phrase.says_of_pattern hPattern hQ
    refine holds_in_slots (fun event hEvent => ?_) (fun event hEvent => ?_) fun event hEvent => ?_
    · exact (hActivator event hEvent).inside (by simp)
    · exact (hTerminator event hEvent).inside (by simp)
    · exact (hSpoken event hEvent).inside (by simp)

theorem Assumption.sound_of_stated {assumption : Assumption}
    (h : Assumption.stated text = .ok assumption) (hTree : readTree .assumption text = .ok tree) :
    assumption.guard.Sound tree.leaves := by
  obtain ⟨_, hRead, hRest⟩ := ok_of_bind h
  obtain rfl := Except.ok.inj (hRead.symm.trans hTree)
  cases derives_of_readTree hRead with
  | assumption _ hName _ hGuard _ =>
    obtain ⟨phrases, hPhrases, hMatch⟩ := ok_of_bind hRest
    obtain ⟨p, q, hP, hQ, rfl⟩ := ofTrees_two hPhrases
    obtain ⟨name, rfl⟩ := Phrase.eq_topic_of_sense (Phrase.sense_of_derives hName hP)
    obtain ⟨condition, rfl⟩ := Phrase.eq_guard_of_sense (Phrase.sense_of_derives hGuard hQ)
    obtain rfl := Except.ok.inj hMatch
    obtain ⟨-, hSound⟩ := Phrase.sound_of_guard hGuard hQ
    exact hSound.mono (SyntaxTree.leaves_subset_leavesAll (by simp))

theorem Expr.sound_of_stated {condition : Expr} (h : Expr.stated text = .ok condition)
    (hTree : readTree .predicate text = .ok tree) : condition.Sound tree.leaves := by
  obtain ⟨_, hRead, hRest⟩ := ok_of_bind h
  obtain rfl := Except.ok.inj (hRead.symm.trans hTree)
  cases derives_of_readTree hRead with
  | topLevelCondition _ hCondition _ =>
    obtain ⟨phrases, hPhrases, hMatch⟩ := ok_of_bind hRest
    obtain ⟨p, _, hP, hNil, rfl⟩ :=
      List.forall₂_cons_left_iff.mp (Phrase.forall₂_of_ofTrees hPhrases)
    obtain rfl := List.forall₂_nil_left_iff.mp hNil
    obtain ⟨e, ty, rfl⟩ := Phrase.eq_expr_of_sense (Phrase.sense_of_derives hCondition hP)
    obtain rfl := Except.ok.inj hMatch
    have hReads := Phrase.reads_of_derives hCondition rfl nofun hP
    exact (hReads.written.sound hReads.literals).mono
      (SyntaxTree.leaves_subset_leavesAll List.mem_cons_self)

end

/-- Whatever is read from a text, with schemas or without, is sound. -/
theorem accepted_texts_are_sound (resolver : Option Resolver) (text : String) :
    (∀ property, Property.ofText resolver text = .ok property →
      ∃ tree, SyntaxTree.ofText .property text = .ok tree ∧
        ∀ slot event, property.event? slot = some event → event.Sound tree) ∧
    (∀ assumption, Assumption.ofText resolver text = .ok assumption →
      ∃ tree, SyntaxTree.ofText .assumption text = .ok tree ∧
        IsTopicName assumption.topic.toList ∧ assumption.guard.Sound tree.leaves) ∧
    ∀ condition, Expr.ofText resolver text = .ok condition →
      ∃ tree, SyntaxTree.ofText .predicate text = .ok tree ∧ condition.Sound tree.leaves := by
  refine ⟨fun property h => ?_, fun assumption h => ?_, fun condition h => ?_⟩
  · obtain ⟨hStated, -⟩ := Property.ofText_eq_ok_iff.mp h
    obtain ⟨tree, hTree, -⟩ := ok_of_bind hStated
    refine ⟨tree, ok_of_mapError hTree, fun slot event hEvent => ?_⟩
    have hSaid := (Property.said_of_stated hStated).event hEvent
    exact ⟨hSaid.topic, hSaid.named, Property.says_of_stated hStated hTree slot event hEvent⟩
  · obtain ⟨hStated, -⟩ := Assumption.ofText_eq_ok_iff.mp h
    obtain ⟨tree, hTree, -⟩ := ok_of_bind hStated
    have hSaid := Assumption.said_of_stated hStated
    exact ⟨tree, ok_of_mapError hTree, hSaid.topic, Assumption.sound_of_stated hStated hTree⟩
  · obtain ⟨hStated, -⟩ := Expr.ofText_eq_ok_iff.mp h
    obtain ⟨tree, hTree, -⟩ := ok_of_bind hStated
    exact ⟨tree, ok_of_mapError hTree, Expr.sound_of_stated hStated hTree⟩

/-- The first event has a condition with signs before its numbers, the second has none. -/
theorem signed_members_are_sound : ∃ property tree trigger,
    Property.ofText none "globally: a \x7b x[-1] in \x7bPI, --2\x7d \x7d causes /b as B" =
      .ok property ∧
    property.event? .trigger = some trigger ∧ trigger.guard.isVacuous = false ∧
    trigger.Sound tree ∧ property.pattern.behaviour.guard.isVacuous = true ∧
    property.pattern.behaviour.Sound tree := by
  have hRead : ((Property.ofText none
      "globally: a \x7b x[-1] in \x7bPI, --2\x7d \x7d causes /b as B").toOption.map fun p =>
        ((p.event? .trigger).map (·.guard.isVacuous), p.pattern.behaviour.guard.isVacuous)) =
      some (some false, true) := by decide +kernel
  cases hText : Property.ofText none
      "globally: a \x7b x[-1] in \x7bPI, --2\x7d \x7d causes /b as B" with
  | error error =>
    rw [hText] at hRead
    cases hRead
  | ok property =>
    rw [hText] at hRead
    obtain ⟨hTrigger, hBehaviour⟩ := Prod.mk.inj (Option.some.inj hRead)
    obtain ⟨trigger, hEvent, hGuard⟩ := Option.map_eq_some_iff.mp hTrigger
    obtain ⟨tree, -, hSound⟩ := (accepted_texts_are_sound none _).1 property hText
    exact ⟨property, tree, trigger, rfl, hEvent, hGuard, hSound .trigger trigger hEvent, hBehaviour,
      hSound .behaviour _ rfl⟩

end TopicSpec
