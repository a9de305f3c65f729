import TopicSpec.Proofs.Binding.Resolution
import TopicSpec.Proofs.Grammar.NameReading
import TopicSpec.Proofs.Phrase.Skeleton

/-! # Any topic name in any place

A property without guards and without a bound is said with words that have single blanks between
them. Its topics and aliases may be any words of the grammar, and it is understood, but for one
place: the first of two events may have no topic that begins with the segment `some` or `no`.
-/

namespace TopicSpec
open Grammar Scan
set_option autoImplicit false

/-! ## Wordings -/

def Event.words (event : Event) : List String := event.topic :: aliasWords event.alias?

def Scope.words : Scope → List String
  | global => ["globally"]
  | after activator => "after" :: activator.words
  | upTo terminator => "until" :: terminator.words
  | afterUntil activator terminator =>
    "after" :: (activator.words ++ "until" :: terminator.words)

def Pattern.words : Pattern → List String
  | existence behaviour _ => "some" :: behaviour.words
  | absence behaviour _ => "no" :: behaviour.words
  | response trigger behaviour _ => trigger.words ++ "causes" :: behaviour.words
  | prevention trigger behaviour _ => trigger.words ++ "forbids" :: behaviour.words
  | requirement behaviour trigger _ => behaviour.words ++ "requires" :: trigger.words

/-- The property in words. -/
def Property.wording (property : Property) : String :=
  " ".intercalate property.scope.words ++ ": " ++ " ".intercalate property.pattern.words

/-- Neither a guard nor a bound is said, topics and aliases are words, and no two events have one
alias. -/
structure Property.Plain (property : Property) : Prop where
  unguarded : ∀ event ∈ property.events, event.guard = .vacuous
  unbounded : property.pattern.maxTime = .infinity false
  topics : ∀ event ∈ property.events, IsTopicName event.topic.toList
  named : ∀ event ∈ property.events, ∀ name, event.alias? = some name → IsIdentifier name.toList
  distinct : ∀ slot slot' name, property.alias? slot = some name →
    property.alias? slot' = some name → slot = slot'

/-- The first of two events has a topic whose first segment introduces a single event. -/
def Pattern.OpensWithWord (pattern : Pattern) : Prop :=
  ∃ first second, pattern.spoken = [first, second] ∧ ∃ word ∈ ["some", "no"],
    first.topic = word ∨ ∃ rest, first.topic = word ++ "/" ++ rest

section
variable {event : Event} {pattern : Pattern} {scope : Scope}

theorem toList_intercalate_blank {words : List String} (h : words ≠ []) :
    ' ' :: (" ".intercalate words).toList = spaced words := by
  obtain ⟨word, words, rfl⟩ := List.exists_cons_of_ne_nil h
  rw [String.toList_intercalate, List.map_cons, Expr.intercalate_cons, List.flatMap_map]
  rfl

/-- An event without guard is said with its words. -/
theorem Event.chars_of_unguarded (h : event.guard = .vacuous) :
    ' ' :: event.chars = spaced event.words := by
  obtain ⟨topic, alias?, guard⟩ := event
  obtain rfl : guard = .vacuous := h
  cases alias? <;>
    simp [Event.chars, words, aliasChars, aliasWords, guardChars, Expr.isVacuous]

theorem Pattern.chars_of_unguarded (hGuards : ∀ event ∈ pattern.spoken, event.guard = .vacuous)
    (hTime : pattern.maxTime = .infinity false) : ' ' :: pattern.chars = spaced pattern.words := by
  have hBound : boundChars (.infinity false) = [] := rfl
  cases pattern with
  | existence behaviour x | absence behaviour x =>
    obtain rfl : x = _ := hTime
    have hBehaviour := Event.chars_of_unguarded (hGuards behaviour (by simp [spoken]))
    simp [Pattern.chars, words, ← hBehaviour, hBound]
  | response left right x | prevention left right x | requirement left right x =>
    obtain rfl : x = _ := hTime
    have hLeft := Event.chars_of_unguarded (hGuards left (by simp [spoken]))
    have hRight := Event.chars_of_unguarded (hGuards right (by simp [spoken]))
    simp [Pattern.chars, words, ← hLeft, ← hRight, hBound]

theorem Scope.chars_of_unguarded
    (hStart : ∀ event, scope.activator? = some event → event.guard = .vacuous)
    (hStop : ∀ event, scope.terminator? = some event → event.guard = .vacuous) :
    ' ' :: scope.chars = spaced scope.words := by
  cases scope with
  | global => rfl
  | after activator =>
    have hActivator := Event.chars_of_unguarded (hStart activator rfl)
    simp [Scope.chars, render, words, Event.toList_render, ← hActivator]
  | upTo terminator =>
    have hTerminator := Event.chars_of_unguarded (hStop terminator rfl)
    simp [Scope.chars, render, words, Event.toList_render, ← hTerminator]
  | afterUntil activator terminator =>
    have hActivator := Event.chars_of_unguarded (hStart activator rfl)
    have hTerminator := Event.chars_of_unguarded (hStop terminator rfl)
    simp [Scope.chars, render, words, Event.toList_render, ← hActivator, ← hTerminator]

/-- A word of the grammar stands between the words of two events. -/
theorem Pattern.words_of_two {first second : Event} (h : pattern.spoken = [first, second]) :
    ∃ verb : String, IsIdentifier verb.toList ∧ verb ≠ "as" ∧
      pattern.words = first.words ++ verb :: second.words := by
  cases pattern with
  | existence | absence => cases h
  | response =>
    cases h
    exact ⟨"causes", isIdentifier_of_all rfl rfl, by decide, rfl⟩
  | prevention =>
    cases h
    exact ⟨"forbids", isIdentifier_of_all rfl rfl, by decide, rfl⟩
  | requirement =>
    cases h
    exact ⟨"requires", isIdentifier_of_all rfl rfl, by decide, rfl⟩

theorem isIdentifier_of_opening {word : String} (h : word ∈ ["some", "no"]) :
    IsIdentifier word.toList := by
  simp only [List.mem_cons, List.not_mem_nil, or_false] at h
  rcases h with rfl | rfl
  · exact isIdentifier_of_all rfl rfl
  · exact isIdentifier_of_all rfl rfl

theorem isTopicName_of_isIdentifier {word : List Char} (h : IsIdentifier word) :
    IsTopicName word :=
  ⟨[], word, [], by simp, .inl rfl, h, by simp⟩

theorem Scope.words_ne_nil (scope : Scope) : scope.words ≠ [] := by
  cases scope <;> simp [words]

theorem Pattern.words_ne_nil (pattern : Pattern) : pattern.words ≠ [] := by
  cases pattern <;> simp [words]

end

namespace Property.Plain

variable {property : Property} {event : Event}

theorem legible_event (h : property.Plain) (hEvent : event ∈ property.events) : event.Legible where
  said := ⟨h.topics event hEvent, h.named event hEvent, .inl (h.unguarded event hEvent)⟩
  plain hGuard := by
    rw [h.unguarded event hEvent] at hGuard
    cases hGuard

theorem legible_scope (h : property.Plain) : property.scope.Legible where
  activator _ hEvent := h.legible_event (by simp [events, hEvent])
  terminator _ hEvent := h.legible_event (by simp [events, hEvent])

theorem spaced_pattern (h : property.Plain) :
    ' ' :: property.pattern.chars = spaced property.pattern.words :=
  Pattern.chars_of_unguarded
    (fun event hEvent => h.unguarded event (mem_events_of_spoken hEvent)) h.unbounded

theorem wording_eq_render (h : property.Plain) : property.wording = property.render := by
  have hScope : ' ' :: property.scope.chars = spaced property.scope.words :=
    Scope.chars_of_unguarded (fun event hEvent => h.unguarded event (by simp [events, hEvent]))
      fun event hEvent => h.unguarded event (by simp [events, hEvent])
  rw [← toList_intercalate_blank property.scope.words_ne_nil] at hScope
  have hPattern := h.spaced_pattern
  rw [← toList_intercalate_blank property.pattern.words_ne_nil] at hPattern
  apply String.toList_injective
  rw [Property.toList_render, (List.cons.inj hScope).2, (List.cons.inj hPattern).2, wording,
    String.toList_append, String.toList_append, List.append_assoc]
  rfl

/-- Without guards, only the aliases can break the discipline. -/
theorem checkBinding (h : property.Plain) : property.checkBinding = .ok () := by
  apply checkBinding_eq_ok_iff_disciplined.mpr
  intro slot event hEvent
  have hVacuous := h.unguarded event (mem_events_of_event? hEvent)
  refine ⟨?_, ?_, ?_⟩
  · intro name hFree
    rw [hVacuous, ← Expr.mem_freeOccurrences_iff] at hFree
    cases hFree
  · rintro name hAlias ⟨other, hSees, hOther⟩
    have hOwn : property.alias? slot = some name := by simp [alias?, hEvent, hAlias]
    obtain rfl := h.distinct slot other name hOwn hOther
    cases hSees
  · rintro scope name ⟨_, _, _, hWithin⟩
    rw [hVacuous] at hWithin
    cases hWithin with
    | inside hPart => cases hPart

theorem checkConditions (h : property.Plain) : ∀ event ∈ property.events,
    (Typing.Environment.mk (some event.topic) property.aliases none).checkCondition event.guard =
      .ok () := by
  intro event hEvent
  rw [h.unguarded event hEvent]
  rfl

/-! ## What is understood -/

theorem legible_pattern (h : property.Plain) (hOpening : ¬property.pattern.OpensWithWord) :
    property.pattern.Legible where
  said := {
    events := fun event hEvent => (h.legible_event (mem_events_of_spoken hEvent)).said
    time := .inl h.unbounded
    opening := by
      intro first second hSpoken word hWord rest hStops
      rcases keyword_cases word (first.topic.toList ++ rest) with ⟨u, hAccept⟩ | hReject
      · have hFirst : first ∈ property.events := mem_events_of_spoken (by simp [hSpoken])
        obtain ⟨tail, hTopic, -, hTail⟩ := tail_of_keyword (h.topics first hFirst) hStops
          (isIdentifier_of_opening hWord) hAccept
        refine absurd ⟨first, second, hSpoken, word, hWord, ?_⟩ hOpening
        rcases hTail with rfl | ⟨more, rfl, -⟩
        · exact .inl (String.toList_injective (by simpa using hTopic))
        · exact .inr ⟨String.ofList more, String.toList_injective (by simpa using hTopic)⟩
      · exact ⟨_, _, hReject⟩ }
  events event hEvent := h.legible_event (mem_events_of_spoken hEvent)
  time hFinite := by
    rw [h.unbounded] at hFinite
    cases hFinite

theorem ofText_wording (h : property.Plain) (hOpening : ¬property.pattern.OpensWithWord) :
    Property.ofText none property.wording = .ok property := by
  rw [h.wording_eq_render]
  exact Property.ofText_eq_ok_iff.mpr
    ⟨Property.stated_render h.legible_scope (h.legible_pattern hOpening), h.checkBinding,
      h.checkConditions⟩

/-! ## What is not -/

theorem isTopicName_words (h : property.Plain) (hEvent : event ∈ property.events) :
    ∀ word ∈ event.words, IsTopicName word.toList := by
  refine List.forall_mem_cons.mpr ⟨h.topics event hEvent, ?_⟩
  cases hAlias : event.alias? with
  | none => nofun
  | some name =>
    have hAs : IsIdentifier "as".toList := isIdentifier_of_all rfl rfl
    have hName := h.named event hEvent name hAlias
    simpa [aliasWords] using ⟨isTopicName_of_isIdentifier hAs, isTopicName_of_isIdentifier hName⟩

/-- The words behind the topic of the first of two events are not those of an alias, nor are they
when one of them is left out. -/
theorem not_aliasWords (first second : Event) {verb : String} (hVerb : verb ≠ "as") :
    ∃ head names, aliasWords first.alias? ++ verb :: second.words = head :: names ∧
      ∀ alias?, head :: names ≠ aliasWords alias? ∧ names ≠ aliasWords alias? := by
  cases first.alias? with
  | none =>
    refine ⟨verb, second.words, rfl, fun alias? => ?_⟩
    cases alias? <;> cases hAlias : second.alias? <;> simp [Event.words, aliasWords, hVerb, hAlias]
  | some name =>
    refine ⟨"as", name :: verb :: second.words, rfl, fun alias? => ?_⟩
    cases alias? <;> simp [Event.words, aliasWords]

/-- The word that introduces a single event is found, and behind it more names than one event
has. -/
theorem names_behind_opening (h : property.Plain) (hOpening : property.pattern.OpensWithWord) :
    ∃ word ∈ ["some", "no"], ∃ u head names, keyword word property.pattern.chars = .accept () u ∧
      afterGap false u = String.toList head ++ spaced names ∧
      (∀ name ∈ head :: names, IsTopicName name.toList) ∧ ∀ alias?, names ≠ aliasWords alias? := by
  obtain ⟨first, second, hSpoken, word, hWord, hTopic⟩ := hOpening
  obtain ⟨verb, hVerb, hAs, hWords⟩ := Pattern.words_of_two hSpoken
  have hFirst : first ∈ property.events := mem_events_of_spoken (by simp [hSpoken])
  have hSecond : second ∈ property.events := mem_events_of_spoken (by simp [hSpoken])
  have hNames : ∀ name ∈ first.words ++ verb :: second.words, IsTopicName name.toList := by
    refine List.forall_mem_append.mpr ⟨h.isTopicName_words hFirst, ?_⟩
    exact List.forall_mem_cons.mpr
      ⟨isTopicName_of_isIdentifier hVerb, h.isTopicName_words hSecond⟩
  obtain ⟨next, names, hMore, hOther⟩ := not_aliasWords first second hAs
  rw [Event.words, List.cons_append, hMore] at hWords hNames
  obtain ⟨hTopicName, hMoreNames⟩ := List.forall_mem_cons.mp hNames
  have hChars : property.pattern.chars = first.topic.toList ++ spaced (next :: names) := by
    have hSpaced := h.spaced_pattern
    rw [hWords] at hSpaced
    exact (List.cons.inj hSpaced).2
  have hStops : StopsWord (spaced (next :: names)) := stops_cons_iff.mpr rfl
  obtain ⟨u, hAccept⟩ : ∃ u, keyword word property.pattern.chars = .accept () u := by
    rw [hChars]
    rcases hTopic with hTopic | ⟨rest, hTopic⟩
    · exact ⟨_, keyword_eq_accept_iff.mpr ⟨by rw [hTopic], hStops⟩⟩
    · refine ⟨'/' :: (rest.toList ++ spaced (next :: names)), keyword_eq_accept_iff.mpr ⟨?_, ?_⟩⟩
      · simp [hTopic]
      · exact stops_cons_iff.mpr rfl
  have hFound := hAccept
  rw [hChars] at hFound
  obtain ⟨tail, -, rfl, rfl | ⟨rest, rfl, hRest⟩⟩ :=
    tail_of_keyword hTopicName hStops (isIdentifier_of_opening hWord) hFound
  · -- The next word stands where the topic of a single event does.
    have hNext := (List.forall_mem_cons.mp hMoreNames).1
    exact ⟨word, hWord, _, next, names, hAccept, gap_topic hNext _, hMoreNames,
      fun alias? => (hOther alias?).2⟩
  · -- What is left of the topic is a topic by itself.
    refine ⟨word, hWord, _, String.ofList ('/' :: rest), next :: names, hAccept, ?_, ?_,
      fun alias? => (hOther alias?).1⟩
    · rw [String.toList_ofList]
      rfl
    · exact List.forall_mem_cons.mpr ⟨by rwa [String.toList_ofList], hMoreNames⟩

theorem refused (h : property.Plain) (hOpening : property.pattern.OpensWithWord) :
    ∃ error, Property.ofText none property.wording = .error (.malformed error) := by
  rcases readTree_cases .property property.wording with ⟨tree, hTree⟩ | ⟨error, hError⟩
  · obtain ⟨word, hWord, u, head, names, hKeyword, hText, hNames, hOther⟩ :=
      h.names_behind_opening hOpening
    obtain ⟨hHead, hNames⟩ := List.forall_mem_cons.mp hNames
    obtain ⟨rule, hRule⟩ : ∃ rule, (rule, word) ∈ [(Rule.existence, "some"), (.absence, "no")] := by
      simp only [List.mem_cons, List.not_mem_nil, or_false] at hWord
      rcases hWord with rfl | rfl
      · exact ⟨.existence, by simp⟩
      · exact ⟨.absence, by simp⟩
    have hAccept : Grammar.property property.wording.toList = .accept tree [] :=
      readTree_eq_ok_iff.mp hTree
    obtain ⟨placed, -, hProperty⟩ := property_behind_scope h.legible_scope property.pattern.chars
    rw [h.wording_eq_render, Property.toList_render, hProperty] at hAccept
    obtain ⟨spoken, t, hPattern, hRest⟩ := bind_eq_accept_iff.mp hAccept
    obtain ⟨_, rest, hGap, hPure⟩ := bind_eq_accept_iff.mp hRest
    obtain ⟨-, rfl⟩ := pure_eq_accept_iff.mp hPure
    have hEnd : afterGap false t = [] := (Outcome.accept.inj hGap).2
    obtain ⟨hChars, -⟩ := keyword_eq_accept_iff.mp hKeyword
    have hFront : afterGap false property.pattern.chars = property.pattern.chars := by
      rw [hChars]
      exact gap_topic (isTopicName_of_isIdentifier (isIdentifier_of_opening hWord)) u
    rw [hFront] at hPattern
    have hUnary := require_eq_accept_iff.mp hPattern
    rw [pattern_of_keyword hRule hKeyword] at hUnary
    obtain ⟨alias?, hAlias⟩ := names_of_unaryPattern hKeyword hText hHead hNames hUnary hEnd
    exact absurd hAlias (hOther alias?)
  · refine ⟨error, ?_⟩
    rw [Property.ofText, hError]
    rfl

end Property.Plain

/-- A property without guards and bound is read from its words, whatever words its topics and
aliases are, unless the first of two events has a topic whose first segment is a word that
introduces a single event: then the words cannot be read at all. -/
theorem plain_property_is_understood {property : Property} (h : property.Plain) :
    (¬property.pattern.OpensWithWord → Property.ofText none property.wording = .ok property) ∧
    (property.pattern.OpensWithWord →
      ∃ error, Property.ofText none property.wording = .error (.malformed error)) :=
  ⟨h.ofText_wording, h.refused⟩

/-- A first topic may be named after a word with a slash before it, and not with one behind it. -/
theorem path_below_some_is_refused :
    (∃ error, Property.ofText none "globally: some/x causes d" = .error (.malformed error)) ∧
    Property.ofText none "after until as as: /some causes some" =
      .ok ⟨.after ⟨"until", some "as", .vacuous⟩,
        .response ⟨"/some", none, .vacuous⟩ ⟨"some", none, .vacuous⟩ (.infinity false)⟩ := by
  have hSome : IsIdentifier "some".toList := isIdentifier_of_all rfl rfl
  have hUntil : IsIdentifier "until".toList := isIdentifier_of_all rfl rfl
  have hAs : IsIdentifier "as".toList := isIdentifier_of_all rfl rfl
  have hX : IsIdentifier ['x'] := isIdentifier_of_all rfl rfl
  have hD : IsIdentifier "d".toList := isIdentifier_of_all rfl rfl
  have hPath : IsTopicName "some/x".toList :=
    ⟨[], _, [['/', 'x']], rfl, .inl rfl, hSome, by simpa using hX⟩
  have hRoot : IsTopicName "/some".toList := ⟨['/'], _, [], rfl, .inr (.inl rfl), hSome, nofun⟩
  constructor
  · have hPlain : Property.Plain ⟨.global,
        .response ⟨"some/x", none, .vacuous⟩ ⟨"d", none, .vacuous⟩ (.infinity false)⟩ := {
      unguarded := List.forall_mem_cons.mpr ⟨rfl, List.forall_mem_singleton.mpr rfl⟩
      unbounded := rfl
      topics := List.forall_mem_cons.mpr
        ⟨hPath, List.forall_mem_singleton.mpr (isTopicName_of_isIdentifier hD)⟩
      named := List.forall_mem_cons.mpr ⟨nofun, List.forall_mem_singleton.mpr nofun⟩
      distinct := by rintro (_ | _) <;> nofun }
    exact (plain_property_is_understood hPlain).2 ⟨_, _, rfl, "some", by simp, .inr ⟨"x", rfl⟩⟩
  · have hPlain : Property.Plain ⟨.after ⟨"until", some "as", .vacuous⟩,
        .response ⟨"/some", none, .vacuous⟩ ⟨"some", none, .vacuous⟩ (.infinity false)⟩ := {
      unguarded := List.forall_mem_cons.mpr
        ⟨rfl, List.forall_mem_cons.mpr ⟨rfl, List.forall_mem_singleton.mpr rfl⟩⟩
      unbounded := rfl
      topics := List.forall_mem_cons.mpr ⟨isTopicName_of_isIdentifier hUntil,
        List.forall_mem_cons.mpr
          ⟨hRoot, List.forall_mem_singleton.mpr (isTopicName_of_isIdentifier hSome)⟩⟩
      named := List.forall_mem_cons.mpr ⟨fun _ hName => Option.some.inj hName ▸ hAs,
        List.forall_mem_cons.mpr ⟨nofun, List.forall_mem_singleton.mpr nofun⟩⟩
      distinct := by
        intro slot slot' name h h'
        cases slot <;> cases slot' <;> simp_all [Property.alias?, Property.event?,
          Scope.activator?, Scope.terminator?, Pattern.trigger?, Pattern.behaviour] }
    refine (plain_property_is_understood hPlain).1 ?_
    rintro ⟨first, second, hSpoken, word, hWord, hTopic⟩
    obtain rfl : _ = first := (List.cons.inj hSpoken).1
    have hSlash : ∀ rest, word ∈ ["some", "no"] → "/some".toList ≠ word.toList ++ rest := by
      intro rest hWord hText
      simp only [List.mem_cons, List.not_mem_nil, or_false] at hWord
      rcases hWord with rfl | rfl <;> cases hText
    rcases hTopic with hTopic | ⟨rest, hTopic⟩
    · exact hSlash [] hWord (by rw [← hTopic, List.append_nil])
    · refine hSlash ("/" ++ rest).toList hWord ?_
      rw [← String.toList_append, ← String.append_assoc, ← hTopic]

end TopicSpec
