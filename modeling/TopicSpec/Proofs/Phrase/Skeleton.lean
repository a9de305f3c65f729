import TopicSpec.Proofs.Grammar.Rereading
import TopicSpec.Proofs.Literal.Lexeme
import TopicSpec.Proofs.Phrase.RoundTrip
import TopicSpec.Proofs.Phrase.Stated

/-! # The text of a specification reads as the specification

Where the texts of its guards and of its bound do. Events may be named by any word, so what a word
stands for depends on its place; the rendered words stand in the same places again. -/

namespace TopicSpec
open Grammar Scan
set_option autoImplicit false

variable {resolver : Option Resolver} {s t : List Char} {e : Event} {x : Double}

/-- The scanner takes the front of the text for the phrase and leaves the rest. -/
def Conveys (p : Scan SyntaxTree) (s : List Char) (phrase : Phrase) (t : List Char) : Prop :=
  ∃ tree, p s = .accept tree t ∧ Phrase.ofTree none tree = .ok phrase

/-! ## Guards -/

theorem conveys_guard {g : Expr} {ty : Ty} (hWritten : g.Written ty)
    (hExpect : Typing.expect .guard (.only .bool) ty g = .ok ()) (hPlain : g.SetsPlain)
    (t : List Char) :
    Conveys Grammar.guard ('\x7b' :: ' ' :: (g.chars ++ ' ' :: '\x7d' :: t)) (.guard g) t := by
  have hRead : Reads none g.SetsPlain g ty ('\x7d' :: t)
      (anyCondition (g.chars ++ ' ' :: '\x7d' :: t)) := by
    have hNested : Inner.Rereads none (nested ((g.chars ++ ' ' :: '\x7d' :: t).length + 1)) _ :=
      nested_rereads _
    apply hNested.condition hWritten
    · rw [List.length_append]
      omega
    · exact .inr (.inr (.inr ⟨t, rfl⟩))
  obtain ⟨tree, rest, hAccept, hRest, hTree⟩ := accept_of_settles hRead hPlain
  refine ⟨.node .guard [tree], ?_, Phrase.ofTree_guard hTree hExpect⟩
  have hOpen : literal "\x7b" ('\x7b' :: ' ' :: (g.chars ++ ' ' :: '\x7d' :: t)) =
      .accept () (' ' :: (g.chars ++ ' ' :: '\x7d' :: t)) := rfl
  have hGap : gap (' ' :: (g.chars ++ ' ' :: '\x7d' :: t)) =
      .accept () (g.chars ++ ' ' :: '\x7d' :: t) :=
    congrArg (Outcome.accept ()) (gap_chars hWritten _)
  rw [Grammar.guard, bind_of_accept hOpen, bind_of_accept hGap,
    bind_of_accept (require_eq_accept_iff.mpr hAccept), bind_of_accept (gap_eq_accept rest), hRest]
  rfl

/-! ## Events -/

/-- The text of a guard, with the blank before it. -/
def guardChars (g : Expr) : List Char :=
  if g.isVacuous then [] else ' ' :: '\x7b' :: ' ' :: (g.chars ++ [' ', '\x7d'])

def Event.chars (e : Event) : List Char :=
  e.topic.toList ++ (aliasChars e.alias? ++ guardChars e.guard)

theorem Event.toList_render (e : Event) : e.render.toList = e.chars := by
  obtain ⟨topic, alias?, g⟩ := e
  cases alias? <;> cases hVacuous : g.isVacuous <;>
    simp [render, Event.chars, aliasChars, guardChars, Expr.chars, hVacuous]

/-- No part of an event follows. -/
structure EndsEvent (t : List Char) : Prop where
  topic : StopsTopic t
  named : Declines (keyword "as") (afterGap false t)
  guarded : Declines Grammar.guard (afterGap false t)

theorem endsEvent_of_head {c : Char} (h : c ∈ ['c', 'f', 'r', 'u', 'w']) :
    EndsEvent (' ' :: c :: t) := by
  simp only [List.mem_cons, List.not_mem_nil, or_false] at h
  have hGap : afterGap false (' ' :: c :: t) = c :: t := by
    rcases h with rfl | rfl | rfl | rfl | rfl <;> rfl
  constructor
  · exact stopsTopic_blank
  · rw [hGap]
    apply declines_keyword_of_head rfl
    rcases h with rfl | rfl | rfl | rfl | rfl <;> decide
  · rw [hGap]
    apply declines_bind
    apply declines_literal_of_head rfl
    rcases h with rfl | rfl | rfl | rfl | rfl <;> decide

theorem endsEvent_colon : EndsEvent (':' :: t) where
  topic := ⟨stops_cons_iff.mpr rfl, by simp⟩
  named := declines_keyword_of_head rfl (by decide)
  guarded := declines_bind (declines_literal_of_head rfl (by decide))

theorem endsEvent_nil : EndsEvent [] where
  topic := ⟨stops_nil _, by simp⟩
  named := ⟨_, _, rfl⟩
  guarded := declines_bind ⟨_, _, rfl⟩

/-- An event that can be said, with a guard whose text can be read. -/
structure Event.Legible (e : Event) : Prop where
  said : e.Said
  plain : e.guard.isVacuous = false → e.guard.SetsPlain

theorem isVacuous_of_written {g : Expr} {ty : Ty} (h : g.Written ty) : g.isVacuous = false := by
  cases h <;> rfl

section
variable {topic : String} {alias? : Option String} {g : Expr} {u : List Char}

theorem conveys_event_bare (hTopic : IsTopicName topic.toList)
    (hNamed : ∀ name, alias? = some name → IsIdentifier name.toList) (hEnds : EndsEvent t) :
    Conveys Grammar.event (topic.toList ++ (aliasChars alias? ++ t))
      (.event ⟨topic, alias?, .vacuous⟩) t := by
  have hMessage := message_append hTopic hNamed hEnds.topic hEnds.named
  have hNone : optional eventGuard t = .accept none t :=
    optional_of_declines (declines_bind_of_accept (gap_eq_accept t) hEnds.guarded)
  refine ⟨.node .event [messageTree topic alias?], ?_, ?_⟩
  · rw [Grammar.event, bind_of_accept hMessage, bind_of_accept hNone]
    rfl
  · rw [Phrase.ofTree_one (Phrase.ofTree_messageTree none topic alias?)]
    rfl

theorem conveys_event_guarded (hTopic : IsTopicName topic.toList)
    (hNamed : ∀ name, alias? = some name → IsIdentifier name.toList)
    (hGuard : Conveys Grammar.guard ('\x7b' :: u) (.guard g) t) :
    Conveys Grammar.event (topic.toList ++ (aliasChars alias? ++ ' ' :: '\x7b' :: u))
      (.event ⟨topic, alias?, g⟩) t := by
  obtain ⟨tree, hAccept, hTree⟩ := hGuard
  have hAs : Declines (keyword "as") (afterGap false (' ' :: '\x7b' :: u)) :=
    declines_keyword_of_head (c := '\x7b') rfl (by decide)
  have hMessage := message_append hTopic hNamed stopsTopic_blank hAs
  have hBlank : gap (' ' :: '\x7b' :: u) = .accept () ('\x7b' :: u) := rfl
  have hSome : optional eventGuard (' ' :: '\x7b' :: u) = .accept (some tree) t := by
    apply optional_eq_accept_some_iff.mpr
    rw [eventGuard, bind_of_accept hBlank, hAccept]
  refine ⟨.node .event [messageTree topic alias?, tree], ?_, ?_⟩
  · rw [Grammar.event, bind_of_accept hMessage, bind_of_accept hSome]
    rfl
  · rw [Phrase.ofTree_two (Phrase.ofTree_messageTree none topic alias?) hTree]
    rfl

end

theorem conveys_event (h : e.Legible) (hEnds : EndsEvent t) :
    Conveys Grammar.event (e.chars ++ t) (.event e) t := by
  obtain ⟨topic, alias?, g⟩ := e
  obtain ⟨⟨hTopic, hNamed, hGuarded⟩, hPlain⟩ := h
  rcases hGuarded with hVacuous | ⟨ty, hWritten, hExpect⟩
  · obtain rfl : g = .vacuous := hVacuous
    have hText : Event.chars ⟨topic, alias?, .vacuous⟩ ++ t =
        topic.toList ++ (aliasChars alias? ++ t) := by
      simp [Event.chars, guardChars, Expr.isVacuous]
    rw [hText]
    exact conveys_event_bare hTopic hNamed hEnds
  · have hSome := isVacuous_of_written hWritten
    have hText : Event.chars ⟨topic, alias?, g⟩ ++ t = topic.toList ++ (aliasChars alias? ++
        ' ' :: '\x7b' :: ' ' :: (g.chars ++ ' ' :: '\x7d' :: t)) := by
      simp [Event.chars, guardChars, hSome]
    rw [hText]
    exact conveys_event_guarded hTopic hNamed (conveys_guard hWritten hExpect (hPlain hSome) t)

theorem gap_event (h : e.Legible) (t : List Char) :
    afterGap false (e.chars ++ t) = e.chars ++ t := by
  rw [Event.chars, List.append_assoc]
  exact gap_topic h.said.topic _

theorem blank_event (h : e.Legible) (t : List Char) :
    gap (' ' :: (e.chars ++ t)) = .accept () (e.chars ++ t) :=
  congrArg (Outcome.accept ()) (gap_event h t)

theorem chars_append (e : Event) (hStops : StopsWord t) :
    ∃ rest, e.chars ++ t = e.topic.toList ++ rest ∧ StopsWord rest := by
  refine ⟨aliasChars e.alias? ++ guardChars e.guard ++ t, by simp [Event.chars], ?_⟩
  cases e.alias? with
  | some name => exact stops_cons_iff.mpr rfl
  | none =>
    rw [aliasChars, guardChars]
    split
    · exact hStops
    · exact stops_cons_iff.mpr rfl

/-! ## Bounds -/

/-- The text of a time is a number whose value is the time. -/
def Double.RoundTrips (x : Double) : Prop :=
  IsNumber x.render ∧
    ∃ l, Literal.ofNumber (String.ofList x.render) = .ok l ∧ l.toDouble? = some x

/-- The text of a bound, with the blank before it. -/
def boundChars (x : Double) : List Char :=
  if x.isFinite then " within ".toList ++ (x.render ++ ['s']) else []

theorem endsEvent_boundChars (x : Double) : EndsEvent (boundChars x) := by
  unfold boundChars
  split
  · exact endsEvent_of_head (c := 'w') (by decide)
  · exact endsEvent_nil

/-- The tree of a bound in seconds. -/
def secondsTree (word : List Char) : SyntaxTree :=
  .node .timeAmount [.token .number word, .leaf ⟨.unit, "s"⟩]

theorem bound_append {word : List Char} (h : IsNumber word) :
    bound (" within ".toList ++ (word ++ ['s'])) = .accept (secondsTree word) [] := by
  have hBlank : gap (" within ".toList ++ (word ++ ['s'])) =
      .accept () ("within".toList ++ ' ' :: (word ++ ['s'])) := rfl
  have hWithin : keyword "within" ("within".toList ++ ' ' :: (word ++ ['s'])) =
      .accept () (' ' :: (word ++ ['s'])) := rfl
  have hGap : gap (' ' :: (word ++ ['s'])) = .accept () (word ++ ['s']) := by
    obtain ⟨c, more, rfl, hDigit⟩ := h.head
    exact congrArg (Outcome.accept ()) (afterGap_of_class hDigit rfl)
  have hAmount : require .boundAmount Scan.number (word ++ ['s']) = .accept word ['s'] :=
    require_eq_accept_iff.mpr (number_append h (stops_cons_iff.mpr rfl))
  have hUnit : require .boundUnit boundUnit ['s'] = .accept (.timeAmount, "s") [] := rfl
  rw [bound, bind_of_accept hBlank, bind_of_accept hWithin, bind_of_accept hGap,
    bind_of_accept hAmount]
  rfl

theorem ofTree_secondsTree (word : List Char) :
    Phrase.ofTree none (secondsTree word) =
      Phrase.seconds <$> Literal.timeAmount (String.ofList word) "s" := by
  rw [secondsTree, SyntaxTree.token,
    Phrase.ofTree_two (Phrase.ofTree_leaf _) (Phrase.ofTree_leaf _)]
  simp only [Phrase.ofNode, Phrase.ofBound, Phrase.toToken, if_true, ok_bind]
  rfl

theorem conveys_bound (h : x.RoundTrips) :
    Conveys bound (" within ".toList ++ (x.render ++ ['s'])) (.seconds x) [] := by
  obtain ⟨hNumber, l, hRead, hValue⟩ := h
  have hTime : Literal.timeAmount (String.ofList x.render) "s" = .ok x := by
    rw [Literal.timeAmount, Literal.amount, hRead, ok_bind, hValue]
    rfl
  refine ⟨secondsTree x.render, bound_append hNumber, ?_⟩
  rw [ofTree_secondsTree, hTime]
  rfl

/-- A bound that may be left out: without one, the time is unlimited. -/
theorem conveys_optional_bound (hUnsigned : x.IsUnsigned)
    (h : x.isFinite = true → x.RoundTrips) :
    ∃ bound? phrases, optional bound (boundChars x) = .accept bound? [] ∧
      Phrase.ofTrees none bound?.toList = .ok phrases ∧
      (phrases = [] ∨ ∃ time, phrases = [.seconds time]) ∧ Phrase.timeOf phrases = x := by
  cases hFinite : x.isFinite with
  | true =>
    obtain ⟨tree, hAccept, hTree⟩ := conveys_bound (h hFinite)
    refine ⟨some tree, [.seconds x], ?_, ?_, .inr ⟨x, rfl⟩, rfl⟩
    · rw [boundChars, if_pos hFinite]
      exact optional_eq_accept_some_iff.mpr hAccept
    · rw [Option.toList_some, Phrase.ofTrees, hTree]
      rfl
  | false =>
    obtain rfl := Double.eq_infinity_of_isUnsigned hUnsigned hFinite
    exact ⟨none, [], rfl, rfl, .inl rfl, rfl⟩

/-! ## Patterns -/

/-- A pattern that can be said, with guards and a time whose texts can be read. -/
structure Pattern.Legible (pattern : Pattern) : Prop where
  said : pattern.Said
  events : ∀ event ∈ pattern.spoken, event.Legible
  time : pattern.maxTime.isFinite = true → pattern.maxTime.RoundTrips

def Pattern.chars : Pattern → List Char
  | existence behaviour x => "some".toList ++ ' ' :: (behaviour.chars ++ boundChars x)
  | absence behaviour x => "no".toList ++ ' ' :: (behaviour.chars ++ boundChars x)
  | response trigger behaviour x =>
    trigger.chars ++ ' ' :: ("causes".toList ++ ' ' :: (behaviour.chars ++ boundChars x))
  | prevention trigger behaviour x =>
    trigger.chars ++ ' ' :: ("forbids".toList ++ ' ' :: (behaviour.chars ++ boundChars x))
  | requirement behaviour trigger x =>
    behaviour.chars ++ ' ' :: ("requires".toList ++ ' ' :: (trigger.chars ++ boundChars x))

theorem Pattern.toList_renderBound (x : Double) : (renderBound x).toList = boundChars x := by
  cases hFinite : x.isFinite <;> simp [renderBound, boundChars, hFinite]

theorem Pattern.toList_render (pattern : Pattern) : pattern.render.toList = pattern.chars := by
  cases pattern <;>
    simp [render, renderEvents, Pattern.chars, Event.toList_render, maxTime, toList_renderBound]

section
variable {word : String} {rule : Rule} {first second : Event} {pattern : Pattern}

theorem conveys_unaryPattern (rule : Rule) (make : Event → Double → Pattern)
    (hRule : ∀ phrases, Phrase.ofNode none rule phrases = Phrase.ofUnaryPattern rule make phrases)
    (h : e.Legible) (hUnsigned : x.IsUnsigned) (hTime : x.isFinite = true → x.RoundTrips) :
    Conveys (unaryPattern word rule) (word.toList ++ ' ' :: (e.chars ++ boundChars x))
      (.pattern (make e x)) [] := by
  obtain ⟨tree, hEvent, hTree⟩ := conveys_event h (endsEvent_boundChars x)
  obtain ⟨bound?, phrases, hBound, hPhrases, hOne, hSame⟩ := conveys_optional_bound hUnsigned hTime
  have hKeyword : keyword word (word.toList ++ ' ' :: (e.chars ++ boundChars x)) =
      .accept () (' ' :: (e.chars ++ boundChars x)) :=
    keyword_eq_accept_iff.mpr ⟨rfl, stops_cons_iff.mpr rfl⟩
  refine ⟨.node rule (tree :: bound?.toList), ?_, ?_⟩
  · rw [unaryPattern, bind_of_accept hKeyword, bind_of_accept (blank_event h _),
      bind_of_accept (commit_eq_accept_iff.mpr hEvent), bind_of_accept hBound]
    rfl
  · rw [Phrase.ofTree, Phrase.ofTrees, hTree, ok_bind, hPhrases, ← hSame]
    exact (hRule _).trans (Phrase.ofUnaryPattern_eq make hOne)

/-- The word between two events ends the first of them, and is found behind it. -/
theorem word_between (hRule : (rule, word) ∈
      [(Rule.response, "causes"), (.prevention, "forbids"), (.requirement, "requires")])
    (u : List Char) :
    EndsEvent (' ' :: (word.toList ++ u)) ∧
      gap (' ' :: (word.toList ++ u)) = .accept () (word.toList ++ u) ∧
      patternKeyword (word.toList ++ ' ' :: u) = .accept rule (' ' :: u) := by
  simp only [List.mem_cons, Prod.mk.injEq, List.not_mem_nil, or_false] at hRule
  rcases hRule with ⟨rfl, rfl⟩ | ⟨rfl, rfl⟩ | ⟨rfl, rfl⟩
  · exact ⟨endsEvent_of_head (c := 'c') (by decide), rfl, rfl⟩
  · exact ⟨endsEvent_of_head (c := 'f') (by decide), rfl, rfl⟩
  · exact ⟨endsEvent_of_head (c := 'r') (by decide), rfl, rfl⟩

theorem conveys_binaryPattern (rule : Rule) (make : Event → Event → Double → Pattern)
    (hWord : (rule, word) ∈
      [(Rule.response, "causes"), (.prevention, "forbids"), (.requirement, "requires")])
    (hRule : ∀ phrases, Phrase.ofNode none rule phrases = Phrase.ofBinaryPattern rule make phrases)
    (hFirst : first.Legible) (hSecond : second.Legible) (hUnsigned : x.IsUnsigned)
    (hTime : x.isFinite = true → x.RoundTrips) :
    Conveys binaryPattern
      (first.chars ++ ' ' :: (word.toList ++ ' ' :: (second.chars ++ boundChars x)))
      (.pattern (make first second x)) [] := by
  obtain ⟨hEnds, hGap, -⟩ := word_between hWord (' ' :: (second.chars ++ boundChars x))
  obtain ⟨-, -, hFound⟩ := word_between hWord (second.chars ++ boundChars x)
  obtain ⟨left, hLeft, hLeftTree⟩ := conveys_event hFirst hEnds
  obtain ⟨right, hRight, hRightTree⟩ := conveys_event hSecond (endsEvent_boundChars x)
  obtain ⟨bound?, phrases, hBound, hPhrases, hOne, hSame⟩ := conveys_optional_bound hUnsigned hTime
  refine ⟨.node rule (left :: right :: bound?.toList), ?_, ?_⟩
  · rw [binaryPattern, bind_of_accept hLeft, bind_of_accept hGap,
      bind_of_accept (require_eq_accept_iff.mpr hFound), bind_of_accept (blank_event hSecond _),
      bind_of_accept (commit_eq_accept_iff.mpr hRight), bind_of_accept hBound]
    rfl
  · rw [Phrase.ofTree, Phrase.ofTrees, hLeftTree, ok_bind, Phrase.ofTrees, hRightTree, ok_bind,
      hPhrases, ← hSame]
    exact (hRule _).trans (Phrase.ofBinaryPattern_eq make hOne)

/-- The opening of a pattern of two events is not taken for that of a pattern of one. -/
theorem conveys_of_opening (h : pattern.Said) (hSpoken : pattern.spoken = [first, second])
    {phrase : Phrase} (hRead : Conveys binaryPattern (first.chars ++ ' ' :: s) phrase t) :
    Conveys Grammar.pattern (first.chars ++ ' ' :: s) phrase t := by
  obtain ⟨tree, hAccept, hTree⟩ := hRead
  refine ⟨tree, ?_, hTree⟩
  rw [pattern_of_declines, hAccept]
  -- A first event named by such a word had been read as the word, so it has no such name.
  intro word hWord
  have hBlank : StopsWord (' ' :: s) := stops_cons_iff.mpr rfl
  obtain ⟨rest, hText, hStops⟩ := chars_append first hBlank
  rw [hText]
  exact h.opening first second hSpoken word hWord rest hStops

theorem conveys_of_keyword (rule : Rule)
    (hRule : (rule, word) ∈ [(Rule.existence, "some"), (.absence, "no")])
    {phrase : Phrase}
    (hRead : Conveys (unaryPattern word rule) (word.toList ++ ' ' :: s) phrase t) :
    Conveys Grammar.pattern (word.toList ++ ' ' :: s) phrase t := by
  obtain ⟨tree, hAccept, hTree⟩ := hRead
  have hKeyword : keyword word (word.toList ++ ' ' :: s) = .accept () (' ' :: s) :=
    keyword_eq_accept_iff.mpr ⟨rfl, stops_cons_iff.mpr rfl⟩
  exact ⟨tree, (pattern_of_keyword hRule hKeyword).trans hAccept, hTree⟩

theorem conveys_pattern (h : pattern.Legible) :
    Conveys Grammar.pattern pattern.chars (.pattern pattern) [] := by
  obtain ⟨hSaid, hEvents, hTime⟩ := h
  have hUnsigned := hSaid.time
  cases pattern with
  | existence behaviour x =>
    have hBehaviour := hEvents behaviour (by simp [Pattern.spoken])
    apply conveys_of_keyword .existence (by simp)
    exact conveys_unaryPattern .existence .existence (fun _ => rfl) hBehaviour hUnsigned hTime
  | absence behaviour x =>
    have hBehaviour := hEvents behaviour (by simp [Pattern.spoken])
    apply conveys_of_keyword .absence (by simp)
    exact conveys_unaryPattern .absence .absence (fun _ => rfl) hBehaviour hUnsigned hTime
  | response trigger behaviour x =>
    have hTrigger := hEvents trigger (by simp [Pattern.spoken])
    have hBehaviour := hEvents behaviour (by simp [Pattern.spoken])
    apply conveys_of_opening hSaid rfl
    exact conveys_binaryPattern .response .response (by simp) (fun _ => rfl) hTrigger hBehaviour
      hUnsigned hTime
  | prevention trigger behaviour x =>
    have hTrigger := hEvents trigger (by simp [Pattern.spoken])
    have hBehaviour := hEvents behaviour (by simp [Pattern.spoken])
    apply conveys_of_opening hSaid rfl
    exact conveys_binaryPattern .prevention .prevention (by simp) (fun _ => rfl) hTrigger hBehaviour
      hUnsigned hTime
  | requirement behaviour trigger x =>
    have hTrigger := hEvents trigger (by simp [Pattern.spoken])
    have hBehaviour := hEvents behaviour (by simp [Pattern.spoken])
    apply conveys_of_opening hSaid rfl
    exact conveys_binaryPattern .requirement .requirement (by simp) (fun _ => rfl) hBehaviour
      hTrigger hUnsigned hTime

theorem gap_pattern (h : pattern.Legible) : afterGap false pattern.chars = pattern.chars := by
  cases pattern with
  | existence behaviour x => rfl
  | absence behaviour x => rfl
  | response trigger behaviour x => exact gap_event (h.events trigger (by simp [Pattern.spoken])) _
  | prevention trigger behaviour x =>
    exact gap_event (h.events trigger (by simp [Pattern.spoken])) _
  | requirement behaviour trigger x =>
    exact gap_event (h.events behaviour (by simp [Pattern.spoken])) _

end

/-! ## Scopes -/

structure Scope.Legible (scope : Scope) : Prop where
  activator : ∀ event, scope.activator? = some event → event.Legible
  terminator : ∀ event, scope.terminator? = some event → event.Legible

def Scope.chars (scope : Scope) : List Char := scope.render.toList

theorem Scope.chars_after (e : Event) :
    (Scope.after e).chars ++ s = "after ".toList ++ (e.chars ++ s) := by
  simp only [Scope.chars, render, String.toList_append, Event.toList_render, List.append_assoc]

theorem Scope.chars_upTo (e : Event) :
    (Scope.upTo e).chars ++ s = "until ".toList ++ (e.chars ++ s) := by
  simp only [Scope.chars, render, String.toList_append, Event.toList_render, List.append_assoc]

theorem Scope.chars_afterUntil (e e' : Event) : (Scope.afterUntil e e').chars ++ s =
    "after ".toList ++ (e.chars ++ (" until ".toList ++ (e'.chars ++ s))) := by
  simp only [Scope.chars, render, String.toList_append, Event.toList_render, List.append_assoc]

theorem conveys_delimiter {p : Scan SyntaxTree} {rule : Rule}
    (hScan : ∀ u, p u = (commit Grammar.event >>= fun tree => pure (.node rule [tree])) u)
    (hRule : ∀ phrases, Phrase.ofNode none rule phrases = Phrase.ofDelimiter rule phrases)
    (h : e.Legible) (hEnds : EndsEvent t) : Conveys p (e.chars ++ t) (.event e) t := by
  obtain ⟨tree, hAccept, hTree⟩ := conveys_event h hEnds
  refine ⟨.node rule [tree], ?_, ?_⟩
  · rw [hScan, bind_of_accept (commit_eq_accept_iff.mpr hAccept)]
    rfl
  · rw [Phrase.ofTree_one hTree, hRule]
    rfl

theorem conveys_activator (h : e.Legible) (hEnds : EndsEvent t) :
    Conveys activator (e.chars ++ t) (.event e) t :=
  conveys_delimiter (fun _ => rfl) (fun _ => rfl) h hEnds

theorem conveys_terminator (h : e.Legible) (hEnds : EndsEvent t) :
    Conveys terminator (e.chars ++ t) (.event e) t :=
  conveys_delimiter (fun _ => rfl) (fun _ => rfl) h hEnds

theorem gap_scope (scope : Scope) (t : List Char) :
    afterGap false (scope.chars ++ t) = scope.chars ++ t := by
  cases scope with
  | global => rfl
  | after activator =>
    rw [Scope.chars_after]
    rfl
  | upTo terminator =>
    rw [Scope.chars_upTo]
    rfl
  | afterUntil activator terminator =>
    rw [Scope.chars_afterUntil]
    rfl

theorem conveys_after (h : e.Legible) (t : List Char) :
    Conveys afterUntil ("after ".toList ++ (e.chars ++ ':' :: t)) (.scope (.after e))
      (':' :: t) := by
  obtain ⟨tree, hAccept, hTree⟩ := conveys_activator h (endsEvent_colon (t := t))
  have hKeyword : keyword "after" ("after ".toList ++ (e.chars ++ ':' :: t)) =
      .accept () (' ' :: (e.chars ++ ':' :: t)) := rfl
  refine ⟨.node .afterUntil [tree], ?_, ?_⟩
  · rw [afterUntil, bind_of_accept hKeyword, bind_of_accept (blank_event h _),
      bind_of_accept hAccept]
    rfl
  · rw [Phrase.ofTree_one hTree]
    rfl

theorem conveys_afterUntil {e' : Event} (h : e.Legible) (h' : e'.Legible) (hEnds : EndsEvent t) :
    Conveys afterUntil ("after ".toList ++ (e.chars ++ (" until ".toList ++ (e'.chars ++ t))))
      (.scope (.afterUntil e e')) t := by
  have hUntil : EndsEvent (" until ".toList ++ (e'.chars ++ t)) :=
    endsEvent_of_head (c := 'u') (by decide)
  obtain ⟨tree, hAccept, hTree⟩ := conveys_activator h hUntil
  obtain ⟨tree', hAccept', hTree'⟩ := conveys_terminator h' hEnds
  have hKeyword : keyword "after"
      ("after ".toList ++ (e.chars ++ (" until ".toList ++ (e'.chars ++ t)))) =
      .accept () (' ' :: (e.chars ++ (" until ".toList ++ (e'.chars ++ t)))) := rfl
  have hBlank : gap (" until ".toList ++ (e'.chars ++ t)) =
      .accept () ("until ".toList ++ (e'.chars ++ t)) := rfl
  have hFound : optional (keyword "until") ("until ".toList ++ (e'.chars ++ t)) =
      .accept (some ()) (' ' :: (e'.chars ++ t)) := rfl
  refine ⟨.node .afterUntil [tree, tree'], ?_, ?_⟩
  · rw [afterUntil, bind_of_accept hKeyword, bind_of_accept (blank_event h _),
      bind_of_accept hAccept, bind_of_accept hBlank, bind_of_accept hFound]
    -- What remains to be read depends on the word that was found.
    show (gap >>= fun _ => terminator >>= _) _ = _
    rw [bind_of_accept (blank_event h' _), bind_of_accept hAccept']
    rfl
  · rw [Phrase.ofTree_two hTree hTree']
    rfl

theorem conveys_until (h : e.Legible) (hEnds : EndsEvent t) :
    Conveys untilScope ("until ".toList ++ (e.chars ++ t)) (.scope (.upTo e)) t := by
  obtain ⟨tree, hAccept, hTree⟩ := conveys_terminator h hEnds
  have hKeyword : keyword "until" ("until ".toList ++ (e.chars ++ t)) =
      .accept () (' ' :: (e.chars ++ t)) := rfl
  refine ⟨.node .untilScope [tree], ?_, ?_⟩
  · rw [untilScope, bind_of_accept hKeyword, bind_of_accept (blank_event h _),
      bind_of_accept hAccept]
    rfl
  · rw [Phrase.ofTree_one hTree]
    rfl

theorem scope_of_after (s : List Char) : Grammar.scope ("after ".toList ++ s) =
    orElse afterUntil untilScope ("after ".toList ++ s) := rfl

theorem scope_of_until (s : List Char) :
    Grammar.scope ("until ".toList ++ s) = untilScope ("until ".toList ++ s) := by
  have hGlobal : Declines globalScope ("until ".toList ++ s) :=
    declines_bind (declines_keyword_of_head (c := 'u') rfl (by decide))
  have hAfter : Declines afterUntil ("until ".toList ++ s) :=
    declines_bind (declines_keyword_of_head (c := 'u') rfl (by decide))
  rw [Grammar.scope, firstOf_of_declines hGlobal, firstOf_of_declines hAfter]
  rfl

theorem conveys_scope {scope : Scope} (h : scope.Legible) (t : List Char) :
    Conveys Grammar.scope (scope.chars ++ ':' :: t) (.scope scope) (':' :: t) := by
  cases scope with
  | global => exact ⟨.node .globalScope [], rfl, rfl⟩
  | after activator =>
    obtain ⟨tree, hAccept, hTree⟩ := conveys_after (h.activator activator rfl) t
    refine ⟨tree, ?_, hTree⟩
    rw [Scope.chars_after, scope_of_after,
      orElse_of_decides (decides_of_accept hAccept), hAccept]
  | upTo terminator =>
    obtain ⟨tree, hAccept, hTree⟩ := conveys_until (h.terminator terminator rfl)
      (endsEvent_colon (t := t))
    refine ⟨tree, ?_, hTree⟩
    rw [Scope.chars_upTo, scope_of_until, hAccept]
  | afterUntil activator terminator =>
    obtain ⟨tree, hAccept, hTree⟩ := conveys_afterUntil (h.activator activator rfl)
      (h.terminator terminator rfl) (endsEvent_colon (t := t))
    refine ⟨tree, ?_, hTree⟩
    rw [Scope.chars_afterUntil, scope_of_after, orElse_of_decides (decides_of_accept hAccept),
      hAccept]

/-! ## Whole texts -/

theorem Property.toList_render (property : Property) : property.render.toList =
    property.scope.chars ++ ':' :: ' ' :: property.pattern.chars := by
  simp [render, Scope.chars, Pattern.toList_render]

/-- Once the scope is read, it is up to the pattern. -/
theorem property_behind_scope {scope : Scope} (h : scope.Legible) (s : List Char) :
    ∃ placed, Phrase.ofTree none placed = .ok (.scope scope) ∧
      Grammar.property (scope.chars ++ ':' :: ' ' :: s) = (do
        let spoken ← require .pattern Grammar.pattern
        gap
        return .node .property [placed, spoken] : Scan SyntaxTree) (afterGap false s) := by
  obtain ⟨placed, hPlaced, hPlacedTree⟩ := conveys_scope h (' ' :: s)
  have hFront : gap (scope.chars ++ ':' :: ' ' :: s) =
      .accept () (scope.chars ++ ':' :: ' ' :: s) :=
    congrArg (Outcome.accept ()) (gap_scope scope _)
  have hColonGap : gap (':' :: ' ' :: s) = .accept () (':' :: ' ' :: s) := rfl
  have hColon : require .colonAfterScope (literal ":") (':' :: ' ' :: s) =
      .accept () (' ' :: s) := rfl
  have hGap : gap (' ' :: s) = .accept () (afterGap false s) := rfl
  refine ⟨placed, hPlacedTree, ?_⟩
  rw [Grammar.property, bind_of_accept hFront, bind_of_accept (require_eq_accept_iff.mpr hPlaced),
    bind_of_accept hColonGap, bind_of_accept hColon, bind_of_accept hGap]

theorem Property.stated_render {property : Property} (hScope : property.scope.Legible)
    (hPattern : property.pattern.Legible) : Property.stated property.render = .ok property := by
  obtain ⟨scope, pattern⟩ := property
  obtain ⟨placed, hPlacedTree, hProperty⟩ := property_behind_scope hScope pattern.chars
  obtain ⟨spoken, hSpoken, hSpokenTree⟩ := conveys_pattern hPattern
  have hRead : readTree .property (Property.mk scope pattern).render =
      .ok (.node .property [placed, spoken]) := by
    apply readTree_eq_ok_iff.mpr
    rw [Property.toList_render]
    show Grammar.property (scope.chars ++ ':' :: ' ' :: pattern.chars) = _
    rw [hProperty, gap_pattern hPattern, bind_of_accept (require_eq_accept_iff.mpr hSpoken)]
    rfl
  rw [Property.stated, hRead]
  simp only [ok_bind, SyntaxTree.children, Phrase.ofTrees, hPlacedTree, hSpokenTree]
  rfl

theorem Assumption.stated_render {assumption : Assumption} (h : assumption.Said)
    (hPlain : assumption.guard.SetsPlain) :
    Assumption.stated assumption.render = .ok assumption := by
  obtain ⟨topic, g⟩ := assumption
  obtain ⟨hTopic, ty, hWritten, hExpect⟩ := h
  obtain ⟨guard, hGuard, hGuardTree⟩ := conveys_guard hWritten hExpect hPlain []
  have hText : (Assumption.mk topic g).render.toList =
      topic.toList ++ ' ' :: '\x7b' :: ' ' :: (g.chars ++ [' ', '\x7d']) := by
    simp [Assumption.render, Expr.chars]
  generalize ' ' :: (g.chars ++ [' ', '\x7d']) = u at hText hGuard
  have hFront : gap (topic.toList ++ ' ' :: '\x7b' :: u) =
      .accept () (topic.toList ++ ' ' :: '\x7b' :: u) :=
    congrArg (Outcome.accept ()) (gap_topic hTopic _)
  have hName : require .topic Grammar.topic (topic.toList ++ ' ' :: '\x7b' :: u) =
      .accept (topicTree topic) (' ' :: '\x7b' :: u) :=
    require_eq_accept_iff.mpr (topic_append hTopic stopsTopic_blank)
  have hGap : gap (' ' :: '\x7b' :: u) = .accept () ('\x7b' :: u) := rfl
  have hRead : readTree .assumption (Assumption.mk topic g).render =
      .ok (.node .assumption [topicTree topic, guard]) := by
    apply readTree_eq_ok_iff.mpr
    rw [hText]
    show Grammar.assumption (topic.toList ++ ' ' :: '\x7b' :: u) = _
    rw [Grammar.assumption, bind_of_accept hFront, bind_of_accept hName, bind_of_accept hGap,
      bind_of_accept (require_eq_accept_iff.mpr hGuard)]
    rfl
  rw [Assumption.stated, hRead]
  simp only [ok_bind, SyntaxTree.children, Phrase.ofTrees, Phrase.ofTree_topicTree, hGuardTree]
  rfl

/-- The text of the condition is read as the condition, under some schemas or without. -/
def Expr.RoundTrips (g : Expr) : Prop := ∃ resolver, Expr.ofText resolver g.render = .ok g

theorem Expr.RoundTrips.setsPlain {g : Expr} {ty : Ty} (h : g.RoundTrips)
    (hWritten : g.Written ty) : g.SetsPlain := by
  obtain ⟨resolver, hText⟩ := h
  obtain ⟨tree, hRead, -⟩ := ok_of_bind hText
  have hAccept : topLevelCondition g.chars = .accept tree [] := readTree_eq_ok_iff.mp hRead
  have hSettles := settles_topLevelCondition resolver hWritten
  rw [hAccept] at hSettles
  exact hSettles.1

theorem Property.mem_events_of_spoken {property : Property} (h : e ∈ property.pattern.spoken) :
    e ∈ property.events := by
  obtain ⟨scope, pattern⟩ := property
  cases pattern with
  | existence | absence => simp_all [Pattern.spoken, events, Pattern.behaviour]
  | response | prevention | requirement =>
    simp only [Pattern.spoken, List.mem_cons, List.not_mem_nil, or_false] at h
    rcases h with rfl | rfl <;> simp [events, Pattern.behaviour, Pattern.trigger?]

theorem Property.legible {property : Property} {text : String}
    (h : Property.stated text = .ok property)
    (hGuards : ∀ event ∈ property.events, event.guard.isVacuous = false → event.guard.RoundTrips)
    (hTime : property.pattern.isBounded = true → property.pattern.maxTime.RoundTrips) :
    property.scope.Legible ∧ property.pattern.Legible := by
  obtain ⟨hScope, hPattern⟩ := Property.said_of_stated h
  have hLegible : ∀ event ∈ property.events, event.Said → event.Legible := by
    intro event hEvent hSaid
    refine ⟨hSaid, fun hVacuous => ?_⟩
    rcases hSaid.guarded with hNone | ⟨ty, hWritten, -⟩
    · rw [hNone] at hVacuous
      cases hVacuous
    · exact (hGuards event hEvent hVacuous).setsPlain hWritten
  refine ⟨⟨?_, ?_⟩, ⟨hPattern, ?_, hTime⟩⟩
  · intro event hEvent
    exact hLegible event (by simp [events, hEvent]) (hScope.activator event hEvent)
  · intro event hEvent
    exact hLegible event (by simp [events, hEvent]) (hScope.terminator event hEvent)
  · intro event hEvent
    exact hLegible event (Property.mem_events_of_spoken hEvent) (hPattern.events event hEvent)

/-- The text of a property or assumption that was read from a text is read as the same one, under
the same schemas, as long as the texts of its guards and of its bound are read as these. -/
theorem skeleton_roundTrips (resolver : Option Resolver) (text : String) :
    (∀ property, Property.ofText resolver text = .ok property →
      (∀ event ∈ property.events, event.guard.isVacuous = false → event.guard.RoundTrips) →
      (property.pattern.isBounded = true → property.pattern.maxTime.RoundTrips) →
      Property.ofText resolver property.render = .ok property) ∧
    ∀ assumption, Assumption.ofText resolver text = .ok assumption →
      (assumption.guard.isVacuous = false → assumption.guard.RoundTrips) →
      Assumption.ofText resolver assumption.render = .ok assumption := by
  constructor
  · intro property hText hGuards hTime
    obtain ⟨hStated, hChecks⟩ := Property.ofText_eq_ok_iff.mp hText
    obtain ⟨hScope, hPattern⟩ := Property.legible hStated hGuards hTime
    exact Property.ofText_eq_ok_iff.mpr ⟨Property.stated_render hScope hPattern, hChecks⟩
  · intro assumption hText hGuard
    obtain ⟨hStated, hChecks⟩ := Assumption.ofText_eq_ok_iff.mp hText
    have hSaid := Assumption.said_of_stated hStated
    obtain ⟨ty, hWritten, -⟩ := hSaid.guarded
    have hPlain := (hGuard (isVacuous_of_written hWritten)).setsPlain hWritten
    exact Assumption.ofText_eq_ok_iff.mpr ⟨Assumption.stated_render hSaid hPlain, hChecks⟩

/-- The fields that lead from the message at hand to an expression. Expressions are not compared as
a whole, so this tells a guard by its shape. -/
def Expr.ownPath? : Expr → Option (List String)
  | .this => some []
  | .field base name => base.ownPath?.map (· ++ [name])
  | _ => none

theorem Expr.eq_this_of_ownPath? {e : Expr} (h : e.ownPath? = some []) : e = .this := by
  unfold Expr.ownPath? at h
  split at h
  · rfl
  · obtain ⟨path, -, hPath⟩ := Option.map_eq_some_iff.mp h
    simp at hPath
  · cases h

theorem Expr.eq_field_of_ownPath? {e : Expr} {name : String} (h : e.ownPath? = some [name]) :
    e = .field .this name := by
  unfold Expr.ownPath? at h
  split at h
  · cases h
  · obtain ⟨path, hBase, hPath⟩ := Option.map_eq_some_iff.mp h
    obtain ⟨rfl, hName⟩ := List.append_inj' (hPath.trans (List.nil_append [name]).symm) rfl
    rw [Expr.eq_this_of_ownPath? hBase, List.singleton_inj.mp hName]
  · cases h

/-- Words of the grammar name the events of this property. -/
theorem keywords_as_names_roundTrip :
    ∃ property, Property.ofText none
        "after until as as until no:as as within\x7bgo\x7drequires until within 5 s" =
        .ok property ∧
      property.render =
        "after until as as until no: as as within \x7b go \x7d requires until within 5s" ∧
      Property.ofText none property.render = .ok property := by
  have hAgain : (Expr.ofText none "go").toOption.map Expr.ownPath? = some (some ["go"]) := by
    decide +kernel
  have hRead : (Property.ofText none
      "after until as as until no:as as within\x7bgo\x7drequires until within 5 s").toOption.map
        (fun p => (p.render,
          p.events.all (fun e => e.guard.isVacuous || e.guard.ownPath? == some ["go"]),
          p.pattern.maxTime)) =
      some ("after until as as until no: as as within \x7b go \x7d requires until within 5s", true,
        .ofInt 5) := by decide +kernel
  have hGuard : (Expr.field .this "go").RoundTrips := by
    cases hText : Expr.ofText none "go" with
    | error error =>
      rw [hText] at hAgain
      cases hAgain
    | ok g =>
      rw [hText] at hAgain
      obtain rfl := Expr.eq_field_of_ownPath? (Option.some.inj hAgain)
      exact ⟨none, hText⟩
  have hTime : (Double.ofInt 5).RoundTrips := by
    have hRender : (Double.ofInt 5).render = ['5'] := by decide +kernel
    rw [Double.RoundTrips, hRender]
    exact ⟨⟨['5'], [], [], rfl, ⟨by simp, by simp⟩, .inl rfl, .inl rfl⟩, ⟨"5", .int 5⟩, rfl, rfl⟩
  cases hText : Property.ofText none
      "after until as as until no:as as within\x7bgo\x7drequires until within 5 s" with
  | error error =>
    rw [hText] at hRead
    cases hRead
  | ok property =>
    rw [hText] at hRead
    obtain ⟨hRender, hRest⟩ := Prod.mk.inj (Option.some.inj hRead)
    obtain ⟨hShapes, hMaxTime⟩ := Prod.mk.inj hRest
    refine ⟨property, rfl, hRender, (skeleton_roundTrips none _).1 property hText ?_ ?_⟩
    · intro event hEvent hVacuous
      have hShape := List.all_eq_true.mp hShapes event hEvent
      rw [hVacuous, Bool.false_or] at hShape
      rw [Expr.eq_field_of_ownPath? (beq_iff_eq.mp hShape)]
      exact hGuard
    · intro _
      rw [hMaxTime]
      exact hTime

end TopicSpec
