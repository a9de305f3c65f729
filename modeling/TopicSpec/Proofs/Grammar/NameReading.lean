import TopicSpec.Proofs.Grammar.EventReading
import TopicSpec.Proofs.Grammar.OperandReading
import TopicSpec.Proofs.Grammar.SpecificationSound

/-! # Texts made of names

A word is found at the front of a topic name only as its whole first segment. Of a text that is made
of names with blanks between them, the pattern of a single event takes all only if there are a topic
and perhaps its alias behind the word.
-/

namespace TopicSpec.Grammar
open Scan
set_option autoImplicit false

variable {s t r u name word rest : List Char} {names : List String}

theorem isIdentifier_of_all (hStart : word.head?.any isWordStart = true)
    (hMore : word.tail.all isWordChar = true) : IsIdentifier word := by
  cases word with
  | nil => cases hStart
  | cons c more => exact ⟨c, more, rfl, hStart, List.all_eq_true.mp hMore⟩

/-- What may follow the first segment of a topic name: nothing, or the other segments. -/
def IsTail (tail : List Char) : Prop := tail = [] ∨ ∃ more, tail = '/' :: more ∧ IsTopicName tail

/-- An identifier at the front of a topic name, which ends inside it or with it, is its first
segment. -/
theorem tail_of_identifier (hName : IsTopicName name) (hStops : StopsWord rest)
    (hText : name ++ rest = word ++ u) (hWord : IsIdentifier word) (hEnd : StopsWord u) :
    ∃ tail, name = word ++ tail ∧ u = tail ++ rest ∧ IsTail tail := by
  obtain ⟨lead, first, more, rfl, hLead, hFirst, hMore⟩ := hName
  obtain ⟨c, inner, rfl, hStart, hInner⟩ := hWord
  have hMark : ∀ mark, isWordStart mark = false →
      [mark] ++ first ++ more.flatten ++ rest ≠ c :: inner ++ u := by
    intro mark hMark hSame
    obtain ⟨rfl, -⟩ := List.cons.inj hSame
    rw [hStart] at hMark
    cases hMark
  rcases hLead with rfl | rfl | rfl
  · have hNext : StopsWord (more.flatten ++ rest) := by
      cases more with
      | nil => exact hStops
      | cons segment more =>
        obtain ⟨next, rfl, -⟩ := hMore _ List.mem_cons_self
        exact stops_cons_iff.mpr (by decide)
    have hSplit : first ++ (more.flatten ++ rest) = c :: inner ++ u := by simpa using hText
    obtain rfl := identifier_unique hFirst ⟨c, inner, rfl, hStart, hInner⟩ hNext hEnd hSplit
    refine ⟨more.flatten, rfl, (List.append_cancel_left hSplit).symm, ?_⟩
    cases more with
    | nil => exact .inl rfl
    | cons segment more =>
      obtain ⟨⟨next, rfl, hNextName⟩, hOther⟩ := List.forall_mem_cons.mp hMore
      exact .inr ⟨next ++ more.flatten, rfl, ['/'], next, more, rfl, .inr (.inl rfl), hNextName,
        hOther⟩
  · exact absurd hText (hMark '/' rfl)
  · exact absurd hText (hMark '~' rfl)

theorem tail_of_keyword {word : String} (hName : IsTopicName name) (hStops : StopsWord rest)
    (hWord : IsIdentifier word.toList) (h : keyword word (name ++ rest) = .accept () u) :
    ∃ tail, name = word.toList ++ tail ∧ u = tail ++ rest ∧ IsTail tail := by
  obtain ⟨hText, hEnd⟩ := keyword_eq_accept_iff.mp h
  exact tail_of_identifier hName hStops hText hWord hEnd

/-! ## Names with blanks before them -/

/-- Words, each with the blank before it. -/
def spaced (words : List String) : List Char := words.flatMap fun word => ' ' :: word.toList

@[simp] theorem spaced_nil : spaced [] = [] := rfl

@[simp] theorem spaced_cons (word : String) (words : List String) :
    spaced (word :: words) = ' ' :: (word.toList ++ spaced words) := rfl

@[simp] theorem spaced_append (words more : List String) :
    spaced (words ++ more) = spaced words ++ spaced more := List.flatMap_append

/-- The words of an alias. -/
def aliasWords : Option String → List String
  | none => []
  | some name => ["as", name]

theorem stopsTopic_spaced (names : List String) : StopsTopic (spaced names) := by
  cases names with
  | nil => exact ⟨stops_nil _, nofun⟩
  | cons => exact stopsTopic_blank

/-- What is left of names when one of them may have been begun. -/
structure Trail (names : List String) (r : List Char) : Prop where
  each : ∀ name ∈ names, IsTopicName name.toList
  text : ∃ tail, r = tail ++ spaced names ∧ IsTail tail

/-- Behind a gap there is nothing, a segment or a name. -/
theorem Trail.front (h : Trail names r) :
    names = [] ∧ r = [] ∨ (∃ more, afterGap false r = '/' :: more) ∨
      ∃ name more, names = name :: more ∧ afterGap false r = name.toList ++ spaced more := by
  obtain ⟨tail, rfl, rfl | ⟨more, rfl, -⟩⟩ := h.text
  · cases names with
    | nil => exact .inl ⟨rfl, rfl⟩
    | cons name more =>
      exact .inr (.inr ⟨name, more, rfl, gap_topic (h.each name List.mem_cons_self) _⟩)
  · exact .inr (.inl ⟨more ++ spaced names, rfl⟩)

theorem head_of_topicName (h : IsTopicName name) :
    ∃ c more, name = c :: more ∧ c ≠ '\x7b' ∧ c.isDigit = false := by
  obtain ⟨lead, first, more, rfl, hLead, ⟨c, inner, rfl, hStart, -⟩, -⟩ := h
  rcases hLead with rfl | rfl | rfl
  · refine ⟨c, inner ++ more.flatten, rfl, ?_, isDigit_of_isWordStart hStart⟩
    rintro rfl
    cases hStart
  · exact ⟨'/', _, rfl, by decide, rfl⟩
  · exact ⟨'~', _, rfl, by decide, rfl⟩

/-- No name begins with a brace or a digit. -/
theorem Trail.head (h : Trail names r) :
    afterGap false r = [] ∨
      ∃ c more, afterGap false r = c :: more ∧ c ≠ '\x7b' ∧ c.isDigit = false := by
  rcases h.front with ⟨-, rfl⟩ | ⟨more, hMore⟩ | ⟨name, more, rfl, hName⟩
  · exact .inl rfl
  · exact .inr ⟨'/', more, hMore, by decide, rfl⟩
  · obtain ⟨c, inner, hHead, hBrace, hDigit⟩ := head_of_topicName (h.each name List.mem_cons_self)
    exact .inr ⟨c, inner ++ spaced more, by rw [hName, hHead]; rfl, hBrace, hDigit⟩

/-- The word that is found is the first segment of the next name. -/
theorem Trail.keyword {word : String} (h : Trail names r) (hWord : IsIdentifier word.toList)
    (hAccept : Scan.keyword word (afterGap false r) = .accept () u) :
    ∃ name more tail, names = name :: more ∧ name.toList = word.toList ++ tail ∧
      u = tail ++ spaced more ∧ IsTail tail ∧ Trail more u := by
  rcases h.front with ⟨-, rfl⟩ | ⟨more, hMore⟩ | ⟨name, more, rfl, hName⟩
  · obtain ⟨c, inner, hHead, -⟩ := hWord
    obtain ⟨hText, -⟩ := keyword_eq_accept_iff.mp hAccept
    rw [hHead] at hText
    cases hText
  · obtain ⟨c, inner, hHead, hStart, -⟩ := hWord
    obtain ⟨hText, -⟩ := keyword_eq_accept_iff.mp hAccept
    rw [hMore, hHead] at hText
    obtain ⟨rfl, -⟩ := List.cons.inj hText
    cases hStart
  · obtain ⟨hFirst, hMore⟩ := List.forall_mem_cons.mp h.each
    rw [hName] at hAccept
    obtain ⟨tail, hTail, rfl, hIsTail⟩ :=
      tail_of_keyword hFirst (stopsTopic_spaced more).word hWord hAccept
    exact ⟨name, more, tail, rfl, hTail, rfl, hIsTail, hMore, tail, rfl, hIsTail⟩

/-! ## Patterns of one event -/

theorem Trail.guard_ne_accept {tree : SyntaxTree} (h : Trail names r) :
    eventGuard r ≠ .accept tree t := by
  intro hAccept
  obtain ⟨_, u, hGap, hGuard⟩ := bind_eq_accept_iff.mp hAccept
  obtain rfl := (Outcome.accept.inj hGap).2
  obtain ⟨_, v, hOpen, -⟩ := bind_eq_accept_iff.mp hGuard
  have hText : afterGap false r = '\x7b' :: v := literal_eq_accept_iff.mp hOpen
  rcases h.head with hNone | ⟨c, more, hHead, hBrace, -⟩
  · rw [hNone] at hText
    cases hText
  · rw [hHead] at hText
    exact hBrace (List.cons.inj hText).1

theorem Trail.bound_ne_accept {tree : SyntaxTree} (h : Trail names r) :
    bound r ≠ .accept tree t := by
  intro hAccept
  obtain ⟨_, a, hGap, hRest⟩ := bind_eq_accept_iff.mp hAccept
  obtain rfl := (Outcome.accept.inj hGap).2
  obtain ⟨_, b, hWithin, hRest⟩ := bind_eq_accept_iff.mp hRest
  have hWord : IsIdentifier "within".toList := isIdentifier_of_all rfl rfl
  obtain ⟨_, _, _, -, -, -, -, hTrail⟩ := h.keyword hWord hWithin
  obtain ⟨_, c, hGap', hRest⟩ := bind_eq_accept_iff.mp hRest
  obtain rfl := (Outcome.accept.inj hGap').2
  obtain ⟨digits, d, hAmount, -⟩ := bind_eq_accept_iff.mp hRest
  obtain ⟨hText, hNumber⟩ := accept_of_number (require_eq_accept_iff.mp hAmount)
  obtain ⟨digit, more, rfl, hDigit⟩ := hNumber.head
  rcases hTrail.head with hNone | ⟨e, inner, hHead, -, hOther⟩
  · rw [hNone] at hText
    cases hText
  · rw [hHead] at hText
    obtain ⟨rfl, -⟩ := List.cons.inj hText
    rw [hDigit] at hOther
    cases hOther

/-- An alias is the word `as` and a name, of which an identifier is taken. -/
theorem Trail.of_aliasName {tree : SyntaxTree} (h : ∀ name ∈ names, IsTopicName name.toList)
    (hAccept : aliasName (spaced names) = .accept tree t) :
    ∃ name more, names = "as" :: name :: more ∧ Trail more t := by
  have hTrail : Trail names (spaced names) := ⟨h, [], rfl, .inl rfl⟩
  obtain ⟨_, a, hGap, hRest⟩ := bind_eq_accept_iff.mp hAccept
  obtain rfl := (Outcome.accept.inj hGap).2
  obtain ⟨_, b, hAs, hRest⟩ := bind_eq_accept_iff.mp hRest
  have hWord : IsIdentifier "as".toList := isIdentifier_of_all rfl rfl
  obtain ⟨found, more, tail, rfl, hFound, rfl, hIsTail, hMore⟩ := hTrail.keyword hWord hAs
  obtain ⟨_, c, hGap', hRest⟩ := bind_eq_accept_iff.mp hRest
  obtain rfl := (Outcome.accept.inj hGap').2
  obtain ⟨word, -, hName⟩ := accept_of_map hRest
  obtain ⟨hText, hIdentifier, hEnd⟩ := identifier_eq_accept_iff.mp (require_eq_accept_iff.mp hName)
  obtain ⟨e, inner, rfl, hStart, hInner⟩ := hIdentifier
  have hSlash : ∀ rest, '/' :: rest ≠ e :: inner ++ t := by
    intro rest hSame
    obtain ⟨rfl, -⟩ := List.cons.inj hSame
    cases hStart
  rcases hIsTail with rfl | ⟨segments, rfl, -⟩
  · cases more with
    | nil => cases hText
    | cons name more =>
      obtain ⟨hFirst, hOthers⟩ := List.forall_mem_cons.mp hMore.each
      have hGapped : afterGap false (spaced (name :: more)) = name.toList ++ spaced more :=
        gap_topic hFirst _
      obtain ⟨tail, -, rfl, hIsTail⟩ := tail_of_identifier hFirst (stopsTopic_spaced more).word
        (hGapped.symm.trans hText) ⟨e, inner, rfl, hStart, hInner⟩ hEnd
      refine ⟨name, more, ?_, hOthers, tail, rfl, hIsTail⟩
      rw [← String.ofList_toList (s := found), hFound]
      rfl
  · exact absurd hText (hSlash _)

/-- If the pattern of a single event takes all of its names, they are a topic and what belongs to
an alias. -/
theorem names_of_unaryPattern {word first : String} {rule : Rule} {tree : SyntaxTree}
    (hWord : keyword word s = .accept () u)
    (hText : afterGap false u = first.toList ++ spaced names)
    (hFirst : IsTopicName first.toList) (hNames : ∀ name ∈ names, IsTopicName name.toList)
    (h : unaryPattern word rule s = .accept tree t) (hEnd : afterGap false t = []) :
    ∃ alias?, names = aliasWords alias? := by
  rw [unaryPattern, bind_of_accept hWord, bind_of_accept (gap_eq_accept u), hText] at h
  obtain ⟨_, a, hEvent, hRest⟩ := bind_eq_accept_iff.mp h
  obtain ⟨_, -, hBound⟩ := accept_of_map hRest
  obtain ⟨_, c, hMessage, hRest⟩ := bind_eq_accept_iff.mp (commit_eq_accept_iff.mp hEvent)
  obtain ⟨_, -, hGuard⟩ := accept_of_map hRest
  rw [message, bind_of_accept (topic_append hFirst (stopsTopic_spaced names))] at hMessage
  obtain ⟨_, -, hAlias⟩ := accept_of_map hMessage
  obtain ⟨left, hTrail, hSplit⟩ : ∃ left, Trail left c ∧
      (names = left ∨ ∃ name, names = "as" :: name :: left) := by
    rcases accept_of_optional hAlias with ⟨-, rfl⟩ | ⟨_, -, hAccept⟩
    · exact ⟨names, ⟨hNames, [], rfl, .inl rfl⟩, .inl rfl⟩
    · obtain ⟨name, more, hSplit, hTrail⟩ := Trail.of_aliasName hNames hAccept
      exact ⟨more, hTrail, .inr ⟨name, hSplit⟩⟩
  -- Neither a guard nor a bound begins like a name, so the rest is left over.
  rcases accept_of_optional hGuard with ⟨-, rfl⟩ | ⟨_, -, hAccept⟩
  · rcases accept_of_optional hBound with ⟨-, rfl⟩ | ⟨_, -, hAccept⟩
    · have hNone : left = [] := by
        rcases hTrail.front with ⟨hNone, -⟩ | ⟨more, hMore⟩ | ⟨name, more, rfl, hName⟩
        · exact hNone
        · rw [hEnd] at hMore
          cases hMore
        · obtain ⟨c, inner, hHead, -⟩ := head_of_topicName (hTrail.each name List.mem_cons_self)
          rw [hEnd, hHead] at hName
          cases hName
      rcases hSplit with hSplit | ⟨name, hSplit⟩
      · exact ⟨none, hSplit.trans hNone⟩
      · exact ⟨some name, by rw [hSplit, hNone, aliasWords]⟩
    · exact absurd hAccept hTrail.bound_ne_accept
  · exact absurd hAccept hTrail.guard_ne_accept

end TopicSpec.Grammar
