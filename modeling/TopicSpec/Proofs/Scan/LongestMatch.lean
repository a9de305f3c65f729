import TopicSpec.Proofs.Literal.Lexeme
import TopicSpec.Proofs.Literal.Value
import TopicSpec.Proofs.Scan.Progress

/-! # The longest match

Of all the fronts of a text that belong to the language of a lexeme, its scanner takes the longest.
Most lexemes end in a run of one class of characters, and such a lexeme is the longest just if no
character of the class comes next. Numbers and topic names are put together from lexemes of this
kind: what one part could go on with is never what the next part begins with, so each of them may
be taken as long as it gets. -/

namespace TopicSpec.Scan
set_option autoImplicit false

variable {α β : Type} {p : Scan (List Char)} {language first second : List Char → Prop}
  {accepts : Char → Bool} {n : Nat} {s t m word next other more : List Char} {c : Char}

/-! ## Longest fronts -/

/-- Of the fronts of the text that belong to the language, the word is the longest. -/
structure IsLongest (language : List Char → Prop) (s word : List Char) : Prop where
  front : word <+: s
  mem : language word
  longest : ∀ {other}, other <+: s → language other → other.length ≤ word.length

theorem IsLongest.unique (h : IsLongest language s word) (h' : IsLongest language s other) :
    word = other := by
  have hLength : word.length = other.length :=
    Nat.le_antisymm (h'.longest h.front h.mem) (h.longest h'.front h'.mem)
  exact (List.prefix_of_prefix_length_le h.front h'.front hLength.le).eq_of_length hLength

theorem IsLongest.cut_unique (h : IsLongest language s word) (h' : IsLongest language s other)
    (hText : s = word ++ t) (hText' : s = other ++ m) : word = other ∧ t = m := by
  obtain rfl := h.unique h'
  exact ⟨rfl, List.append_cancel_left (hText.symm.trans hText')⟩

theorem IsLongest.congr {language' : List Char → Prop} (h : IsLongest language s word)
    (hSame : ∀ w, language w ↔ language' w) : IsLongest language' s word where
  front := h.front
  mem := (hSame word).mp h.mem
  longest hFront hOther := h.longest hFront ((hSame _).mpr hOther)

theorem exists_longest (hFront : word <+: s) (hWord : language word) :
    ∃ longest, IsLongest language s longest := by
  -- A front that is longer than this one leaves less of the text.
  induction hLeft : s.length - word.length using Nat.strong_induction_on generalizing word with
  | h left ih =>
    by_cases hLonger : ∃ other, other <+: s ∧ language other ∧ word.length < other.length
    · obtain ⟨other, hOtherFront, hOther, hLength⟩ := hLonger
      have hBound := hOtherFront.length_le
      exact ih (s.length - other.length) (by omega) hOtherFront hOther rfl
    · refine ⟨word, hFront, hWord, ?_⟩
      intro other hOtherFront hOther
      exact Nat.le_of_not_lt fun hLength => hLonger ⟨other, hOtherFront, hOther, hLength⟩

theorem eq_append_of_longer (hWord : word <+: s) (hOther : other <+: s)
    (hLength : word.length < other.length) : ∃ c more, other = word ++ c :: more := by
  obtain ⟨rest, rfl⟩ := List.prefix_of_prefix_length_le hWord hOther hLength.le
  cases rest with
  | nil => simp at hLength
  | cons c more => exact ⟨c, more, rfl⟩

/-! ## Languages that end in a run -/

/-- From the `n`-th character on, the words of the language are made of the class. -/
structure TailIn (accepts : Char → Bool) (n : Nat) (language : List Char → Prop) : Prop where
  length : ∀ {word}, language word → n ≤ word.length
  tail : ∀ {word}, language word → ∀ c ∈ word.drop n, accepts c = true

/-- Words of the language may also be continued with any character of the class. -/
structure EndsInRun (accepts : Char → Bool) (n : Nat) (language : List Char → Prop) : Prop
    extends TailIn accepts n language where
  extend : ∀ {word c}, language word → accepts c = true → language (word ++ [c])

theorem TailIn.accepts_next (h : TailIn accepts n language) (hWord : language word)
    (hLonger : language (word ++ c :: more)) : accepts c = true := by
  apply h.tail hLonger
  rw [List.drop_append_of_le_length (h.length hWord)]
  exact List.mem_append_right _ List.mem_cons_self

theorem TailIn.isLongest (h : TailIn accepts n language) (hWord : language word)
    (hStops : Stops accepts t) : IsLongest language (word ++ t) word where
  front := List.prefix_append word t
  mem := hWord
  longest := by
    intro other hFront hOther
    by_contra hLonger
    obtain ⟨c, more, rfl⟩ :=
      eq_append_of_longer (List.prefix_append word t) hFront (Nat.lt_of_not_le hLonger)
    obtain ⟨rest, rfl⟩ := (List.prefix_append_right_inj word).mp hFront
    have hNext := h.accepts_next hWord hOther
    rw [hStops c rfl] at hNext
    cases hNext

theorem IsLongest.stops (h : IsLongest language (word ++ t) word)
    (hExtend : ∀ {w c}, language w → accepts c = true → language (w ++ [c])) : Stops accepts t := by
  cases t with
  | nil => exact stops_nil accepts
  | cons c t =>
    rw [stops_cons_iff]
    by_contra hAccepts
    have hFront : word ++ [c] <+: word ++ c :: t := ⟨t, by simp⟩
    have hLonger := h.longest hFront (hExtend h.mem (by simpa using hAccepts))
    rw [List.length_append] at hLonger
    exact Nat.not_succ_le_self _ hLonger

/-- A word of the one language and then a word of the other. -/
def Joined (first second : List Char → Prop) (word : List Char) : Prop :=
  ∃ front back, word = front ++ back ∧ first front ∧ second back

/-- Where no word of the second language begins with what the first one could go on with, the
longest front is made of two longest ones. -/
theorem IsLongest.append (hFirst : IsLongest first (word ++ m) word)
    (hSecond : IsLongest second m next) (hTail : TailIn accepts n first)
    (hApart : ∀ w, second w → Stops accepts w) :
    IsLongest (Joined first second) (word ++ m) (word ++ next) where
  front := (List.prefix_append_right_inj word).mpr hSecond.front
  mem := ⟨word, next, rfl, hFirst.mem, hSecond.mem⟩
  longest := by
    rintro _ hFront ⟨front, back, rfl, hFrontWord, hBack⟩
    have hFrontPrefix : front <+: word ++ m := (List.prefix_append front back).trans hFront
    rw [List.length_append, List.length_append]
    rcases (hFirst.longest hFrontPrefix hFrontWord).lt_or_eq with hShorter | hEqual
    · obtain ⟨c, more, rfl⟩ :=
        eq_append_of_longer hFrontPrefix (List.prefix_append word m) hShorter
      -- What stops short of the run has a character of the run next, and goes no further.
      cases back with
      | nil => exact Nat.le_add_right_of_le hShorter.le
      | cons d back =>
        have hNext : d :: back <+: c :: more ++ m := by
          rwa [List.append_assoc, List.prefix_append_right_inj] at hFront
        obtain rfl : d = c := (List.cons_prefix_cons.mp hNext).1
        have hAccepts := hTail.accepts_next hFrontWord hFirst.mem
        rw [stops_cons_iff.mp (hApart _ hBack)] at hAccepts
        cases hAccepts
    · obtain rfl : front = word :=
        (List.prefix_of_prefix_length_le hFrontPrefix (List.prefix_append word m)
          hEqual.le).eq_of_length hEqual
      exact Nat.add_le_add_left
        (hSecond.longest ((List.prefix_append_right_inj front).mp hFront) hBack) _

/-- The language with the empty word, which stands for a part that is not there. -/
def Optionally (language : List Char → Prop) (word : List Char) : Prop := word = [] ∨ language word

theorem IsLongest.optionally (h : IsLongest language s word) :
    IsLongest (Optionally language) s word where
  front := h.front
  mem := .inr h.mem
  longest := by
    rintro other hFront (rfl | hOther)
    · exact Nat.zero_le _
    · exact h.longest hFront hOther

/-! ## Scanners -/

/-- The scanner accepts the longest front that belongs to the language, whenever there is one. -/
def TakesLongest (p : Scan (List Char)) (language : List Char → Prop) : Prop :=
  ∀ s word t, p s = .accept word t ↔ s = word ++ t ∧ IsLongest language s word

/-- The scanner stays where it is, and leaves the text to others, just if no front of the text
belongs to the language. -/
def DeclinesInPlace (p : Scan (List Char)) (language : List Char → Prop) : Prop :=
  ∀ s, p s = .reject false [] s ↔ ∀ word, word <+: s → ¬language word

theorem takesLongest_of_stops (h : EndsInRun accepts n language)
    (hAccept : ∀ {s word t}, p s = .accept word t ↔ s = word ++ t ∧ language word ∧
      Stops accepts t) : TakesLongest p language := by
  intro s word t
  rw [hAccept]
  constructor
  · rintro ⟨rfl, hWord, hStops⟩
    exact ⟨rfl, h.isLongest hWord hStops⟩
  · rintro ⟨rfl, hLongest⟩
    exact ⟨rfl, hLongest.mem, hLongest.stops h.extend⟩

theorem takesLongest_of_accepts
    (hLongest : ∀ {s word t}, p s = .accept word t → s = word ++ t ∧ IsLongest language s word)
    (hFinds : ∀ {s word}, word <+: s → language word → ∃ found t, p s = .accept found t) :
    TakesLongest p language := by
  intro s word t
  constructor
  · exact hLongest
  · rintro ⟨hText, hWord⟩
    obtain ⟨found, t', hAccept⟩ := hFinds hWord.front hWord.mem
    obtain ⟨hText', hFound⟩ := hLongest hAccept
    obtain ⟨rfl, rfl⟩ := hWord.cut_unique hFound hText hText'
    exact hAccept

theorem TakesLongest.finds (h : TakesLongest p language) (hFront : word <+: s)
    (hWord : language word) : ∃ found t, p s = .accept found t := by
  obtain ⟨longest, hLongest⟩ := exists_longest hFront hWord
  obtain ⟨t, rfl⟩ := hLongest.front
  exact ⟨longest, t, (h _ _ _).mpr ⟨rfl, hLongest⟩⟩

theorem TakesLongest.declinesInPlace (h : TakesLongest p language)
    (hStays : ∀ s, (∃ word t, p s = .accept word t) ∨ p s = .reject false [] s) :
    DeclinesInPlace p language := by
  intro s
  constructor
  · intro hReject word hFront hWord
    obtain ⟨found, t, hAccept⟩ := h.finds hFront hWord
    cases hReject.symm.trans hAccept
  · intro hNone
    rcases hStays s with ⟨word, t, hAccept⟩ | hReject
    · obtain ⟨-, hLongest⟩ := (h s word t).mp hAccept
      exact absurd hLongest.mem (hNone word hLongest.front)
    · exact hReject

theorem TakesLongest.optional {word? : Option (List Char)} (h : TakesLongest p language)
    (hRead : optional p s = .accept word? t) :
    s = word?.getD [] ++ t ∧ IsLongest (Optionally language) s (word?.getD []) := by
  rcases accept_of_optional hRead with ⟨rfl, rfl⟩ | ⟨word, rfl, hAccept⟩
  · refine ⟨rfl, List.nil_prefix, .inl rfl, ?_⟩
    rintro other hFront (rfl | hOther)
    · exact Nat.le_refl _
    · obtain ⟨found, rest, hFound⟩ := h.finds hFront hOther
      cases (optional_eq_accept_some_iff.mpr hFound).symm.trans hRead
  · obtain ⟨hText, hLongest⟩ := (h s word t).mp hAccept
    exact ⟨hText, hLongest.optionally⟩

/-! ## Identifiers -/

theorem IsIdentifier.all (h : IsIdentifier word) : ∀ c ∈ word, isWordChar c = true := by
  obtain ⟨c, more, rfl, hStart, hMore⟩ := h
  exact List.forall_mem_cons.mpr ⟨isWordChar_of_isWordStart hStart, hMore⟩

theorem endsInRun_identifier : EndsInRun isWordChar 0 IsIdentifier where
  length _ := Nat.zero_le _
  tail := IsIdentifier.all
  extend := by
    rintro _ c ⟨d, more, rfl, hStart, hMore⟩ hc
    refine ⟨d, more ++ [c], rfl, hStart, ?_⟩
    exact List.forall_mem_append.mpr ⟨hMore, List.forall_mem_singleton.mpr hc⟩

theorem takesLongest_identifier : TakesLongest identifier IsIdentifier :=
  takesLongest_of_stops endsInRun_identifier identifier_eq_accept_iff

theorem identifier_cases (s : List Char) :
    (∃ word t, identifier s = .accept word t) ∨ identifier s = .reject false [] s := by
  cases s with
  | nil => exact .inr rfl
  | cons c s =>
    by_cases hStart : isWordStart c = true
    · have hLetter : IsIdentifier [c] := ⟨c, [], rfl, hStart, nofun⟩
      exact .inl (takesLongest_identifier.finds ⟨s, rfl⟩ hLetter)
    · exact .inr (by simp [identifier, hStart])

theorem declinesInPlace_identifier : DeclinesInPlace identifier IsIdentifier :=
  takesLongest_identifier.declinesInPlace identifier_cases

/-! ## Numbers -/

theorem IsDigits.concat (h : IsDigits word) (hc : c.isDigit = true) : IsDigits (word ++ [c]) :=
  ⟨by simp, List.forall_mem_append.mpr ⟨h.2, List.forall_mem_singleton.mpr hc⟩⟩

theorem endsInRun_digits : EndsInRun Char.isDigit 0 IsDigits where
  length _ := Nat.zero_le _
  tail h := h.2
  extend := IsDigits.concat

theorem endsInRun_fraction : EndsInRun Char.isDigit 1 IsFraction where
  length := by
    rintro _ ⟨digits, rfl, -⟩
    exact Nat.le_add_left 1 _
  tail := by
    rintro _ ⟨digits, rfl, hDigits⟩
    exact hDigits.2
  extend := by
    rintro _ c ⟨digits, rfl, hDigits⟩ hc
    exact ⟨digits ++ [c], rfl, hDigits.concat hc⟩

theorem endsInRun_exponent : EndsInRun Char.isDigit 2 IsExponent where
  -- The mark and one more character, a sign or a digit, come before the run.
  length := by
    rintro _ ⟨mark, sign, digits, rfl, -, -, hDigits⟩
    have hLength := List.length_pos_iff.mpr hDigits.1
    rw [List.length_cons, List.length_append]
    omega
  tail := by
    rintro _ ⟨mark, sign, digits, rfl, -, rfl | rfl | rfl, hDigits⟩
    · exact fun c hc => hDigits.2 c (List.mem_of_mem_drop hc)
    · exact hDigits.2
    · exact hDigits.2
  extend := by
    rintro _ c ⟨mark, sign, digits, rfl, hMark, hSign, hDigits⟩ hc
    exact ⟨mark, sign, digits ++ [c], by simp, hMark, hSign, hDigits.concat hc⟩

theorem takesLongest_digits : TakesLongest (someRun Char.isDigit) IsDigits :=
  takesLongest_of_stops endsInRun_digits digits_eq_accept_iff

theorem takesLongest_fraction : TakesLongest fraction IsFraction :=
  takesLongest_of_stops endsInRun_fraction fraction_eq_accept_iff

theorem takesLongest_exponent : TakesLongest exponent IsExponent := by
  refine takesLongest_of_stops endsInRun_exponent ⟨accept_of_exponent, ?_⟩
  rintro ⟨rfl, hWord, hStops⟩
  exact exponent_append hWord hStops

theorem isNumber_iff_joined (word : List Char) :
    Joined (Joined IsDigits (Optionally IsFraction)) (Optionally IsExponent) word ↔
      IsNumber word := by
  constructor
  · rintro ⟨_, power, rfl, ⟨whole, part, rfl, hWhole, hPart⟩, hPower⟩
    exact ⟨whole, part, power, rfl, hWhole, hPart, hPower⟩
  · rintro ⟨whole, part, power, rfl, hWhole, hPart, hPower⟩
    exact ⟨whole ++ part, power, rfl, ⟨whole, part, rfl, hWhole, hPart⟩, hPower⟩

theorem tailIn_decimal :
    TailIn (fun c => c.isDigit || c == '.') 0 (Joined IsDigits (Optionally IsFraction)) where
  length _ := Nat.zero_le _
  tail := by
    rintro _ ⟨whole, part, rfl, hWhole, hPart⟩ c hc
    rcases List.mem_append.mp hc with hc | hc
    · simp [hWhole.2 c hc]
    · rcases hPart with rfl | ⟨digits, rfl, hDigits⟩
      · cases hc
      · rcases List.mem_cons.mp hc with rfl | hc
        · rfl
        · simp [hDigits.2 c hc]

theorem isLongest_of_number (h : number s = .accept word t) :
    s = word ++ t ∧ IsLongest IsNumber s word := by
  obtain ⟨whole, m, hWhole, hRest⟩ := bind_eq_accept_iff.mp h
  obtain ⟨part?, n, hPart, hRest⟩ := bind_eq_accept_iff.mp hRest
  obtain ⟨_, rfl, hPower⟩ := accept_of_map hRest
  obtain ⟨rfl, hWhole⟩ := (takesLongest_digits _ _ _).mp hWhole
  obtain ⟨rfl, hPart⟩ := takesLongest_fraction.optional hPart
  obtain ⟨rfl, hPower⟩ := takesLongest_exponent.optional hPower
  have hDecimal := hWhole.append hPart endsInRun_digits.toTailIn (by
    rintro w (rfl | ⟨digits, rfl, -⟩)
    · exact stops_nil _
    · exact stops_cons_iff.mpr rfl)
  rw [← List.append_assoc] at hDecimal ⊢
  have hNumber := hDecimal.append hPower tailIn_decimal (by
    rintro w (rfl | ⟨mark, sign, digits, rfl, rfl | rfl, -⟩)
    · exact stops_nil _
    · exact stops_cons_iff.mpr rfl
    · exact stops_cons_iff.mpr rfl)
  exact ⟨by simp, hNumber.congr isNumber_iff_joined⟩

/-- The scanner does not commit itself. -/
def Tentative (p : Scan α) : Prop := ∀ s, (∃ a t, p s = .accept a t) ∨ Declines p s

theorem Tentative.bind {p : Scan α} {f : α → Scan β} (hp : Tentative p)
    (hf : ∀ a, Tentative (f a)) : Tentative (p >>= f) := by
  intro s
  rcases hp s with ⟨a, t, hAccept⟩ | hDeclines
  · rcases hf a t with ⟨b, r, hNext⟩ | hNext
    · exact .inl ⟨b, r, (bind_of_accept hAccept).trans hNext⟩
    · exact .inr (declines_bind_of_accept hAccept hNext)
  · exact .inr (declines_bind hDeclines)

theorem tentative_pure (a : α) : Tentative (pure a : Scan α) := fun s => .inl ⟨a, s, rfl⟩

theorem Tentative.optional {p : Scan α} (h : Tentative p) (s : List Char) :
    ∃ a? t, optional p s = .accept a? t := by
  rcases h s with ⟨a, t, hAccept⟩ | hDeclines
  · exact ⟨some a, t, optional_eq_accept_some_iff.mpr hAccept⟩
  · exact ⟨none, s, optional_of_declines hDeclines⟩

theorem tentative_oneOf (accepts : Char → Bool) : Tentative (oneOf accepts) := by
  intro s
  rcases stops_or_head accepts s with hStops | ⟨c, r, rfl, hc⟩
  · exact .inr (declines_oneOf hStops)
  · exact .inl ⟨c, r, oneOf_eq_accept_iff.mpr ⟨rfl, hc⟩⟩

theorem tentative_someRun (accepts : Char → Bool) : Tentative (someRun accepts) :=
  fun s => (someRun_cases accepts s).imp_right fun hReject => ⟨_, _, hReject⟩

theorem tentative_fraction : Tentative fraction := by
  apply (tentative_oneOf _).bind
  intro point
  apply (tentative_someRun _).bind
  exact fun digits => tentative_pure _

theorem tentative_exponent : Tentative exponent := by
  apply (tentative_oneOf _).bind
  intro mark
  apply Tentative.bind (fun s => .inl ((tentative_oneOf _).optional s))
  intro sign?
  apply (tentative_someRun _).bind
  exact fun digits => tentative_pure _

/-- Digits are enough of a number: what comes behind them is left if it is not complete. -/
theorem number_of_digits {whole : List Char} (h : someRun Char.isDigit s = .accept whole m) :
    ∃ word t, number s = .accept word t := by
  obtain ⟨part?, n, hPart⟩ := tentative_fraction.optional m
  obtain ⟨power?, t, hPower⟩ := tentative_exponent.optional n
  have hRead : number s = .accept (whole ++ part?.getD [] ++ power?.getD []) t := by
    refine bind_eq_accept_iff.mpr ⟨whole, m, h, ?_⟩
    refine bind_eq_accept_iff.mpr ⟨part?, n, hPart, ?_⟩
    exact bind_eq_accept_iff.mpr ⟨power?, t, hPower, rfl⟩
  exact ⟨_, t, hRead⟩

theorem takesLongest_number : TakesLongest number IsNumber := by
  apply takesLongest_of_accepts isLongest_of_number
  rintro _ word ⟨rest, rfl⟩ hWord
  obtain ⟨c, more, rfl, hDigit⟩ := hWord.head
  have hDigits : IsDigits [c] := ⟨List.cons_ne_nil c [], List.forall_mem_singleton.mpr hDigit⟩
  obtain ⟨whole, m, hWhole⟩ := takesLongest_digits.finds ⟨more ++ rest, rfl⟩ hDigits
  exact number_of_digits hWhole

theorem declinesInPlace_number : DeclinesInPlace number IsNumber := by
  apply takesLongest_number.declinesInPlace
  intro s
  rcases someRun_cases Char.isDigit s with ⟨whole, m, hWhole⟩ | hReject
  · exact .inl (number_of_digits hWhole)
  · exact .inr (by rw [number, bind_apply, hReject])

/-! ## Gaps -/

/-- Blanks, line ends and comments, each up to the end of its line; the last comment may also end
with the word. -/
def IsGap (word : List Char) : Prop := Gap word []

theorem eq_append_of_gap (h : Gap s t) : ∃ word, s = word ++ t ∧ IsGap word := by
  induction h with
  | nothing s => exact ⟨[], rfl, .nothing []⟩
  | @blank c _ _ hBlank _ ih =>
    obtain ⟨word, rfl, hWord⟩ := ih
    exact ⟨c :: word, rfl, .blank hBlank hWord⟩
  | @comment text _ _ hText _ ih =>
    obtain ⟨word, rfl, hWord⟩ := ih
    exact ⟨'#' :: text ++ '\n' :: word, by simp, .comment hText hWord⟩
  | @lastComment text hText => exact ⟨'#' :: text, by simp, .lastComment hText⟩

/-- Whatever stands behind a gap, the gap is skipped at least. -/
theorem length_afterGap_append_le (h : IsGap word) (s : List Char) :
    (afterGap false (word ++ s)).length ≤ s.length := by
  unfold IsGap at h
  generalize hEnd : ([] : List Char) = t at h
  induction h with
  | nothing _ =>
    subst hEnd
    exact length_afterGap_le false s
  | blank hBlank _ ih => simpa [afterGap, hBlank] using ih hEnd
  | @comment text word _ hText _ ih =>
    have hOpen : afterGap false ('#' :: text ++ '\n' :: word ++ s) =
        afterGap true (text ++ '\n' :: (word ++ s)) := by
      rw [List.append_assoc]
      rfl
    rw [hOpen, afterGap_comment hText]
    exact ih hEnd
  | @lastComment text hText =>
    have hOpen : afterGap false ('#' :: text ++ s) = afterGap true (text ++ s) := rfl
    rw [hOpen, afterGap_text hText]
    exact length_afterGap_le true s

theorem isLongest_gap (s : List Char) :
    ∃ word, s = word ++ afterGap false s ∧ IsLongest IsGap s word := by
  obtain ⟨word, hText, hWord⟩ := eq_append_of_gap (gap_afterGap s).1
  refine ⟨word, hText, ⟨_, hText.symm⟩, hWord, ?_⟩
  rintro other ⟨rest, rfl⟩ hOther
  have hSkipped := length_afterGap_append_le hOther rest
  have hLength := congrArg List.length hText
  rw [List.length_append, List.length_append] at hLength
  omega

theorem gap_eq_accept_iff :
    gap s = .accept () t ↔ ∃ word, s = word ++ t ∧ IsLongest IsGap s word := by
  obtain ⟨word, hText, hWord⟩ := isLongest_gap s
  rw [gap_eq_accept, Outcome.accept.injEq]
  constructor
  · rintro ⟨-, rfl⟩
    exact ⟨word, hText, hWord⟩
  · rintro ⟨other, hOtherText, hOther⟩
    exact ⟨rfl, (hWord.cut_unique hOther hText hOtherText).2⟩

/-! ## Topic names -/

/-- What a topic name begins with: an identifier after an optional slash or tilde. -/
def IsRoot (word : List Char) : Prop :=
  ∃ lead first, word = lead ++ first ∧ (lead = [] ∨ lead = ['/'] ∨ lead = ['~']) ∧
    IsIdentifier first

/-- A slash and an identifier. -/
def IsSegment (word : List Char) : Prop := ∃ name, word = '/' :: name ∧ IsIdentifier name

/-- Any number of segments. -/
def IsPath (word : List Char) : Prop :=
  ∃ segments, word = List.flatten segments ∧ ∀ segment ∈ segments, IsSegment segment

theorem isTopicName_iff_joined (word : List Char) :
    Joined IsRoot IsPath word ↔ IsTopicName word := by
  constructor
  · rintro ⟨_, _, rfl, ⟨lead, first, rfl, hLead, hFirst⟩, more, rfl, hMore⟩
    exact ⟨lead, first, more, rfl, hLead, hFirst, hMore⟩
  · rintro ⟨lead, first, more, rfl, hLead, hFirst, hMore⟩
    exact ⟨lead ++ first, more.flatten, rfl, ⟨lead, first, rfl, hLead, hFirst⟩, more, rfl, hMore⟩

theorem isPath_iff_joined (word : List Char) :
    Optionally (Joined IsSegment IsPath) word ↔ IsPath word := by
  constructor
  · rintro (rfl | ⟨segment, _, rfl, hSegment, more, rfl, hMore⟩)
    · exact ⟨[], rfl, nofun⟩
    · exact ⟨segment :: more, rfl, List.forall_mem_cons.mpr ⟨hSegment, hMore⟩⟩
  · rintro ⟨segments, rfl, hSegments⟩
    cases segments with
    | nil => exact .inl rfl
    | cons segment more =>
      obtain ⟨hSegment, hMore⟩ := List.forall_mem_cons.mp hSegments
      exact .inr ⟨segment, more.flatten, rfl, hSegment, more, rfl, hMore⟩

theorem IsIdentifier.concat (h : IsIdentifier word) (hc : isWordChar c = true) :
    IsIdentifier (word ++ [c]) := endsInRun_identifier.extend h hc

theorem IsIdentifier.length_pos (h : IsIdentifier word) : 0 < word.length := by
  obtain ⟨c, more, rfl, -⟩ := h
  exact Nat.succ_pos _

theorem endsInRun_root : EndsInRun isWordChar 1 IsRoot where
  length := by
    rintro _ ⟨lead, first, rfl, -, hFirst⟩
    have hLength := hFirst.length_pos
    rw [List.length_append]
    omega
  tail := by
    rintro _ ⟨lead, first, rfl, rfl | rfl | rfl, hFirst⟩
    · exact fun c hc => hFirst.all c (List.mem_of_mem_drop hc)
    · exact hFirst.all
    · exact hFirst.all
  extend := by
    rintro _ c ⟨lead, first, rfl, hLead, hFirst⟩ hc
    exact ⟨lead, first ++ [c], by simp, hLead, hFirst.concat hc⟩

theorem tailIn_topicName : TailIn (fun c => isWordChar c || c == '/') 1 IsTopicName where
  length := by
    intro word hWord
    obtain ⟨root, path, rfl, hRoot, -⟩ := (isTopicName_iff_joined word).mpr hWord
    rw [List.length_append]
    exact Nat.le_add_right_of_le (endsInRun_root.length hRoot)
  tail := by
    intro word hWord c hc
    obtain ⟨root, path, rfl, hRoot, segments, rfl, hSegments⟩ :=
      (isTopicName_iff_joined word).mpr hWord
    rw [List.drop_append_of_le_length (endsInRun_root.length hRoot)] at hc
    rcases List.mem_append.mp hc with hc | hc
    · simp [endsInRun_root.tail hRoot c hc]
    · obtain ⟨segment, hSegment, hc⟩ := List.mem_flatten.mp hc
      obtain ⟨name, rfl, hName⟩ := hSegments segment hSegment
      rcases List.mem_cons.mp hc with rfl | hc
      · rfl
      · simp [hName.all c hc]

theorem endsInRun_segment : EndsInRun isWordChar 1 IsSegment where
  length := by
    rintro _ ⟨name, rfl, -⟩
    exact Nat.le_add_left 1 _
  tail := by
    rintro _ ⟨name, rfl, hName⟩
    exact hName.all
  extend := by
    rintro _ c ⟨name, rfl, hName⟩ hc
    exact ⟨name ++ [c], rfl, hName.concat hc⟩

theorem IsTopicName.concat (h : IsTopicName word) (hc : isWordChar c = true) :
    IsTopicName (word ++ [c]) := by
  obtain ⟨lead, first, more, rfl, hLead, hFirst, hMore⟩ := h
  rcases more.eq_nil_or_concat' with rfl | ⟨init, last, rfl⟩
  · exact ⟨lead, first ++ [c], [], by simp, hLead, hFirst.concat hc, nofun⟩
  · obtain ⟨hInit, hLast⟩ := List.forall_mem_append.mp hMore
    have hLonger := endsInRun_segment.extend (List.forall_mem_singleton.mp hLast) hc
    exact ⟨lead, first, init ++ [last ++ [c]], by simp, hLead, hFirst,
      List.forall_mem_append.mpr ⟨hInit, List.forall_mem_singleton.mpr hLonger⟩⟩

theorem stopsWord_of_isPath (h : IsPath word) : StopsWord word := by
  obtain ⟨segments, rfl, hSegments⟩ := h
  cases segments with
  | nil => exact stops_nil _
  | cons segment more =>
    obtain ⟨⟨name, rfl, -⟩, -⟩ := List.forall_mem_cons.mp hSegments
    exact stops_cons_iff.mpr rfl

/-- Nothing but a segment leads on. -/
theorem isLongest_path_nil (h : ∀ segment, segment <+: s → ¬IsSegment segment) :
    IsLongest IsPath s [] where
  front := List.nil_prefix
  mem := ⟨[], rfl, nofun⟩
  longest := by
    rintro _ hFront ⟨segments, rfl, hSegments⟩
    cases segments with
    | nil => exact Nat.le_refl _
    | cons segment more =>
      obtain ⟨hSegment, -⟩ := List.forall_mem_cons.mp hSegments
      exact absurd hSegment (h segment ((List.prefix_append _ _).trans hFront))

theorem isLongest_path_cons {segment path : List Char} (hSegment : IsSegment segment)
    (hStops : StopsWord m) (hPath : IsLongest IsPath m path) :
    IsLongest IsPath (segment ++ m) (segment ++ path) := by
  have hJoined := (endsInRun_segment.isLongest hSegment hStops).append hPath
    endsInRun_segment.toTailIn fun _ => stopsWord_of_isPath
  exact hJoined.optionally.congr isPath_iff_joined

/-- The scanner rejects the text for good. -/
def Commits (p : Scan α) (s : List Char) : Prop :=
  ∃ expected rest, p s = .reject true expected rest

theorem commits_bind {p : Scan α} {f : α → Scan β} (h : Commits p s) : Commits (p >>= f) s := by
  obtain ⟨expected, rest, hReject⟩ := h
  exact ⟨expected, rest, by rw [bind_apply, hReject]⟩

theorem commits_bind_of_accept {p : Scan α} {f : α → Scan β} {a : α} (h : p s = .accept a t)
    (hf : Commits (f a) t) : Commits (p >>= f) s := by
  obtain ⟨expected, rest, hReject⟩ := hf
  exact ⟨expected, rest, (bind_of_accept h).trans hReject⟩

theorem topicSegment_of_no_slash (h : s.head? ≠ some '/') : topicSegment s = .accept none s := by
  have hStops : Stops (· == '/') s := by
    intro c hc
    simp only [beq_eq_false_iff_ne]
    rintro rfl
    exact h hc
  exact bind_of_accept (optional_of_declines (declines_oneOf hStops))

theorem topicSegment_of_name {name : List Char} (h : identifier s = .accept name t) :
    topicSegment ('/' :: s) = .accept (some ('/' :: name)) t := by
  have hSlash : optional (oneOf (· == '/')) ('/' :: s) = .accept (some '/') s := rfl
  have hName : require .nameSegment identifier s = .accept name t := require_eq_accept_iff.mpr h
  exact (bind_of_accept hSlash).trans (bind_of_accept hName)

theorem topicSegment_of_no_name (h : Declines identifier s) : Commits topicSegment ('/' :: s) := by
  have hSlash : optional (oneOf (· == '/')) ('/' :: s) = .accept (some '/') s := rfl
  exact commits_bind_of_accept hSlash (commits_bind (require_of_declines h))

/-- Segments are read for as long as slashes follow: there is no way back from a slash. -/
theorem many_topicSegment (s : List Char) :
    (∃ segments t, many topicSegment s = .accept segments t ∧ s = segments.flatten ++ t ∧
      IsLongest IsPath s segments.flatten ∧ t.head? ≠ some '/') ∨
    (Commits (many topicSegment) s ∧
      ∃ path t, s = path ++ '/' :: t ∧ IsLongest IsPath s path) := by
  induction hLength : s.length using Nat.strong_induction_on generalizing s with
  | h length ih =>
    -- One round is taken from the loop: the segments behind it stand in a shorter text.
    rw [many_unrolls advancesRound_topicSegment]
    by_cases hSlash : s.head? = some '/'
    · obtain ⟨r, rfl⟩ : ∃ r, s = '/' :: r := List.head?_eq_some_iff.mp hSlash
      rcases identifier_cases r with ⟨name, m, hName⟩ | hReject
      · obtain ⟨rfl, hIdentifier, hStops⟩ := identifier_eq_accept_iff.mp hName
        have hSegment : IsSegment ('/' :: name) := ⟨name, rfl, hIdentifier⟩
        have hRound := topicSegment_of_name hName
        have hShorter : m.length < length := by
          rw [← hLength]
          exact advancesRound_topicSegment.shorter hRound
        rcases ih m.length hShorter m rfl with
          ⟨segments, t, hMore, hText, hPath, hEnd⟩ | ⟨hMore, path, t, hText, hPath⟩
        · have hAll : (many topicSegment >>= fun more => pure (('/' :: name) :: more)) m =
              .accept (('/' :: name) :: segments) t := bind_of_accept hMore
          refine .inl ⟨('/' :: name) :: segments, t, (bind_of_accept hRound).trans hAll, ?_, ?_,
            hEnd⟩
          · rw [List.flatten_cons, List.append_assoc, ← hText]
            rfl
          · exact isLongest_path_cons hSegment hStops hPath
        · refine .inr ⟨commits_bind_of_accept hRound (commits_bind hMore), ?_⟩
          refine ⟨'/' :: name ++ path, t, ?_, isLongest_path_cons hSegment hStops hPath⟩
          rw [List.append_assoc, ← hText]
          rfl
      -- The loop ends in the error of its step, and the slash is left behind the path so far.
      · refine .inr ⟨commits_bind (topicSegment_of_no_name ⟨[], r, hReject⟩), [], r, rfl, ?_⟩
        apply isLongest_path_nil
        rintro _ hFront ⟨name, rfl, hName⟩
        exact (declinesInPlace_identifier r).mp hReject name (List.cons_prefix_cons.mp hFront).2
          hName
    · refine .inl ⟨[], s, bind_of_accept (topicSegment_of_no_slash hSlash), rfl, ?_, hSlash⟩
      apply isLongest_path_nil
      rintro _ ⟨rest, rfl⟩ ⟨name, rfl, -⟩
      exact hSlash rfl

/-- The lead is read if there is one, and the first identifier of a topic name comes next. -/
theorem topicLead (s : List Char) :
    ∃ lead? m, optional (oneOf fun c => c == '/' || c == '~') s = .accept lead? m ∧
      s = lead?.toList ++ m ∧
      (lead?.toList = [] ∨ lead?.toList = ['/'] ∨ lead?.toList = ['~']) ∧
      ∀ word, word <+: s → IsTopicName word → ∃ first, first <+: m ∧ IsIdentifier first := by
  rcases stops_or_head (fun c => c == '/' || c == '~') s with hStops | ⟨c, m, rfl, hc⟩
  · refine ⟨none, s, optional_of_declines (declines_oneOf hStops), rfl, .inl rfl, ?_⟩
    rintro _ hFront ⟨lead, first, more, rfl, hLead, hFirst, -⟩
    have hFirstFront := (List.prefix_append (lead ++ first) more.flatten).trans hFront
    rcases hLead with rfl | rfl | rfl
    · exact ⟨first, hFirstFront, hFirst⟩
    · obtain ⟨rest, rfl⟩ := hFirstFront
      cases stops_cons_iff.mp hStops
    · obtain ⟨rest, rfl⟩ := hFirstFront
      cases stops_cons_iff.mp hStops
  · have hOne : oneOf (fun c => c == '/' || c == '~') (c :: m) = .accept c m :=
      oneOf_eq_accept_iff.mpr ⟨rfl, hc⟩
    have hMark : c = '/' ∨ c = '~' := by simpa using hc
    refine ⟨some c, m, optional_eq_accept_some_iff.mpr hOne, rfl, .inr ?_, ?_⟩
    · exact hMark.imp (congrArg fun d => [d]) (congrArg fun d => [d])
    · rintro _ hFront ⟨lead, first, more, rfl, hLead, hFirst, -⟩
      have hFirstFront := (List.prefix_append (lead ++ first) more.flatten).trans hFront
      rcases hLead with rfl | rfl | rfl
      · obtain ⟨d, rest, rfl, hStart, -⟩ := hFirst
        obtain rfl : d = c := (List.cons_prefix_cons.mp hFirstFront).1
        rcases hMark with rfl | rfl <;> cases hStart
      · exact ⟨first, (List.cons_prefix_cons.mp hFirstFront).2, hFirst⟩
      · exact ⟨first, (List.cons_prefix_cons.mp hFirstFront).2, hFirst⟩

/-- A topic name is read as far as it goes, and a slash behind it is final. -/
theorem topicName_cases (s : List Char) :
    (∃ word t, topicName s = .accept word t ∧ s = word ++ t ∧ IsLongest IsTopicName s word ∧
      t.head? ≠ some '/') ∨
    (Commits topicName s ∧ ∃ word t, s = word ++ '/' :: t ∧ IsLongest IsTopicName s word) ∨
    (Declines topicName s ∧ ∀ word, word <+: s → ¬IsTopicName word) := by
  obtain ⟨lead?, m, hLeadRead, rfl, hLead, hFirsts⟩ := topicLead s
  rcases identifier_cases m with ⟨first, n, hFirstRead⟩ | hReject
  · obtain ⟨rfl, hFirst, hStops⟩ := identifier_eq_accept_iff.mp hFirstRead
    have hRoot : IsLongest IsRoot (lead?.toList ++ first ++ n) (lead?.toList ++ first) :=
      endsInRun_root.isLongest ⟨lead?.toList, first, rfl, hLead, hFirst⟩ hStops
    have hWhole : ∀ {path}, IsLongest IsPath n path →
        IsLongest IsTopicName (lead?.toList ++ (first ++ n)) (lead?.toList ++ first ++ path) := by
      intro path hPath
      rw [← List.append_assoc]
      exact (hRoot.append hPath endsInRun_root.toTailIn fun _ => stopsWord_of_isPath).congr
        isTopicName_iff_joined
    rcases many_topicSegment n with
      ⟨segments, t, hMore, rfl, hPath, hEnd⟩ | ⟨hMore, path, t, rfl, hPath⟩
    · refine .inl ⟨lead?.toList ++ first ++ segments.flatten, t, ?_, by simp, hWhole hPath, hEnd⟩
      refine bind_eq_accept_iff.mpr ⟨lead?, _, hLeadRead, ?_⟩
      refine bind_eq_accept_iff.mpr ⟨first, _, hFirstRead, ?_⟩
      exact bind_eq_accept_iff.mpr ⟨segments, t, hMore, rfl⟩
    · refine .inr (.inl ⟨?_, lead?.toList ++ first ++ path, t, by simp, hWhole hPath⟩)
      apply commits_bind_of_accept hLeadRead
      apply commits_bind_of_accept hFirstRead
      exact commits_bind hMore
  · refine .inr (.inr ⟨?_, ?_⟩)
    · exact declines_bind_of_accept hLeadRead (declines_bind ⟨[], m, hReject⟩)
    · intro word hFront hWord
      obtain ⟨first, hFirstFront, hFirst⟩ := hFirsts word hFront hWord
      exact (declinesInPlace_identifier m).mp hReject first hFirstFront hFirst

theorem topicName_eq_accept_iff :
    topicName s = .accept word t ↔
      s = word ++ t ∧ IsLongest IsTopicName s word ∧ t.head? ≠ some '/' := by
  rcases topicName_cases s with
    ⟨found, m, hAccept, hText, hFound, hEnd⟩ | ⟨⟨_, _, hReject⟩, found, m, hText, hFound⟩ |
      ⟨⟨_, _, hReject⟩, hNone⟩
  · rw [hAccept, Outcome.accept.injEq]
    constructor
    · rintro ⟨rfl, rfl⟩
      exact ⟨hText, hFound, hEnd⟩
    · rintro ⟨hOtherText, hOther, -⟩
      exact hFound.cut_unique hOther hText hOtherText
  · refine iff_of_false (by simp [hReject]) ?_
    rintro ⟨hOtherText, hOther, hEnd⟩
    obtain ⟨-, rfl⟩ := hFound.cut_unique hOther hText hOtherText
    exact hEnd rfl
  · refine iff_of_false (by simp [hReject]) ?_
    rintro ⟨-, hOther, -⟩
    exact hNone word hOther.front hOther.mem

theorem commits_topicName_iff :
    Commits topicName s ↔ ∃ word t, s = word ++ '/' :: t ∧ IsLongest IsTopicName s word := by
  rcases topicName_cases s with
    ⟨found, m, hAccept, hText, hFound, hEnd⟩ | ⟨hCommits, hSlash⟩ | ⟨⟨_, _, hReject⟩, hNone⟩
  · refine iff_of_false (by simp [Commits, hAccept]) ?_
    rintro ⟨other, t, hOtherText, hOther⟩
    obtain ⟨-, rfl⟩ := hFound.cut_unique hOther hText hOtherText
    exact hEnd rfl
  · exact iff_of_true hCommits hSlash
  · refine iff_of_false (by simp [Commits, hReject]) ?_
    rintro ⟨other, t, -, hOther⟩
    exact hNone other hOther.front hOther.mem

theorem declines_topicName_iff :
    Declines topicName s ↔ ∀ word, word <+: s → ¬IsTopicName word := by
  rcases topicName_cases s with
    ⟨found, m, hAccept, -, hFound, -⟩ | ⟨⟨_, _, hReject⟩, found, m, -, hFound⟩ |
      ⟨hDeclines, hNone⟩
  · exact iff_of_false (by simp [Declines, hAccept]) fun h => h found hFound.front hFound.mem
  · exact iff_of_false (by simp [Declines, hReject]) fun h => h found hFound.front hFound.mem
  · exact iff_of_true hDeclines hNone

/-! ## Names -/

theorem isReserved_iff : isReserved word = true ↔ String.ofList word ∈ reserved := by
  rw [isReserved, List.any_eq_true]
  constructor
  · rintro ⟨r, hMem, hSame⟩
    rwa [← beq_iff_eq.mp hSame, String.ofList_toList]
  · exact fun hMem => ⟨String.ofList word, hMem, by simp⟩

theorem name_eq_accept_iff_longest :
    name s = .accept word t ↔
      s = word ++ t ∧ IsLongest IsIdentifier s word ∧ String.ofList word ∉ reserved := by
  have hIdentifier := takesLongest_identifier s word t
  rw [identifier_eq_accept_iff] at hIdentifier
  rw [name_eq_accept_iff, IsName, ← isReserved_iff, Bool.not_eq_true]
  constructor
  · rintro ⟨hText, ⟨hWord, hReserved⟩, hStops⟩
    exact ⟨hText, (hIdentifier.mp ⟨hText, hWord, hStops⟩).2, hReserved⟩
  · rintro ⟨hText, hLongest, hReserved⟩
    obtain ⟨-, hWord, hStops⟩ := hIdentifier.mpr ⟨hText, hLongest⟩
    exact ⟨hText, ⟨hWord, hReserved⟩, hStops⟩

theorem name_eq_reject_iff :
    name s = .reject false [] s ↔
      ∀ word, IsLongest IsIdentifier s word → String.ofList word ∈ reserved := by
  rcases identifier_cases s with ⟨word, t, hAccept⟩ | hReject
  · obtain ⟨-, hLongest⟩ := (takesLongest_identifier s word t).mp hAccept
    have hOnly : (∀ other, IsLongest IsIdentifier s other → String.ofList other ∈ reserved) ↔
        String.ofList word ∈ reserved := by
      constructor
      · exact fun h => h word hLongest
      · intro hMem other hOther
        rwa [hOther.unique hLongest]
    rw [hOnly, ← isReserved_iff]
    unfold name
    rw [hAccept]
    cases hReserved : isReserved word <;> simp [hReserved]
  · have hNone := (declinesInPlace_identifier s).mp hReject
    refine iff_of_true (by rw [name, hReject]) ?_
    exact fun word hWord => absurd hWord.mem (hNone word hWord.front)

/-! ## Quoted texts -/

/-- The first quote decides, and the second one ends the text or is missed. -/
theorem quoted_cases (s : List Char) :
    (∃ r word t, s = '"' :: r ∧ quoted s = .accept word t) ∨
    (Commits quoted s ∧ ∃ inner, s = '"' :: inner ∧ '"' ∉ inner) ∨
    (quoted s = .reject false [] s ∧ s.head? ≠ some '"') := by
  by_cases hQuote : s.head? = some '"'
  · obtain ⟨r, rfl⟩ : ∃ r, s = '"' :: r := List.head?_eq_some_iff.mp hQuote
    by_cases hSecond : '"' ∈ r
    · obtain ⟨inner, t, rfl, hInner⟩ := List.eq_append_cons_of_mem hSecond
      have hRead : quoted ('"' :: (inner ++ '"' :: t)) = .accept ('"' :: inner ++ ['"']) t :=
        quoted_eq_accept_iff.mpr ⟨by simp, inner, rfl, hInner⟩
      exact .inl ⟨_, _, t, rfl, hRead⟩
    · obtain ⟨expected, hReject⟩ := quoted_of_open hSecond
      exact .inr (.inl ⟨⟨expected, [], hReject⟩, r, rfl, hSecond⟩)
  · rcases literal_cases "\"" s with ⟨t, hAccept⟩ | hReject
    · obtain rfl := literal_eq_accept_iff.mp hAccept
      exact absurd rfl hQuote
    · exact .inr (.inr ⟨by rw [quoted, bind_apply, hReject], hQuote⟩)

theorem commits_quoted_iff : Commits quoted s ↔ ∃ inner, s = '"' :: inner ∧ '"' ∉ inner := by
  constructor
  · rintro ⟨_, _, hReject⟩
    rcases quoted_cases s with ⟨_, _, _, -, hAccept⟩ | ⟨-, hOpen⟩ | ⟨hOther, -⟩
    · cases hReject.symm.trans hAccept
    · exact hOpen
    · cases hReject.symm.trans hOther
  · rintro ⟨inner, rfl, hInner⟩
    obtain ⟨expected, hReject⟩ := quoted_of_open hInner
    exact ⟨expected, [], hReject⟩

theorem quoted_eq_reject_iff : quoted s = .reject false [] s ↔ s.head? ≠ some '"' := by
  rcases quoted_cases s with ⟨r, word, t, rfl, hAccept⟩ | ⟨⟨_, _, hReject⟩, inner, rfl, -⟩ | hNone
  · exact iff_of_false (by simp [hAccept]) fun h => h rfl
  · exact iff_of_false (by simp [hReject]) fun h => h rfl
  · exact iff_of_true hNone.1 hNone.2

/-! ## All lexemes -/

/-- Each lexeme is read as far as it goes. Identifiers, numbers and gaps are the longest fronts in
their languages; identifiers and numbers are left to others, in place, where there is none, and a
gap may be empty. A name is an identifier, but no reserved word. A topic name is the longest front
as well, and may not be followed by a slash; a quoted text ends at its second quote. Both reject
for good what lacks its end. A number becomes an integer, a double or the error of an integer out
of range. -/
theorem lexemes_are_longest :
    (TakesLongest identifier IsIdentifier ∧ DeclinesInPlace identifier IsIdentifier) ∧
    (TakesLongest number IsNumber ∧ DeclinesInPlace number IsNumber) ∧
    ((∀ s t, gap s = .accept () t ↔ ∃ word, s = word ++ t ∧ IsLongest IsGap s word) ∧
      ∀ s, ∃ t, gap s = .accept () t) ∧
    ((∀ s word t, name s = .accept word t ↔
        s = word ++ t ∧ IsLongest IsIdentifier s word ∧ String.ofList word ∉ reserved) ∧
      ∀ s, name s = .reject false [] s ↔
        ∀ word, IsLongest IsIdentifier s word → String.ofList word ∈ reserved) ∧
    ((∀ s word t, topicName s = .accept word t ↔
        s = word ++ t ∧ IsLongest IsTopicName s word ∧ t.head? ≠ some '/') ∧
      (∀ s, Commits topicName s ↔
        ∃ word t, s = word ++ '/' :: t ∧ IsLongest IsTopicName s word) ∧
      ∀ s, Declines topicName s ↔ ∀ word, word <+: s → ¬IsTopicName word) ∧
    ((∀ s word t, quoted s = .accept word t ↔
        s = word ++ t ∧ ∃ inner, word = '"' :: inner ++ ['"'] ∧ '"' ∉ inner) ∧
      (∀ s, Commits quoted s ↔ ∃ inner, s = '"' :: inner ∧ '"' ∉ inner) ∧
      ∀ s, quoted s = .reject false [] s ↔ s.head? ≠ some '"') ∧
    ∀ s word t, number s = .accept word t →
      (IsDigits word ∧ Double.ofDigits word < Literal.integerLimit ∧
        Literal.ofNumber (String.ofList word) =
          .ok ⟨String.ofList word, .int (Double.ofDigits word)⟩) ∨
      (IsDigits word ∧ Literal.integerLimit ≤ Double.ofDigits word ∧
        Literal.ofNumber (String.ofList word) =
          .error (.binding (.integerOutOfRange (String.ofList word)))) ∨
      (¬IsDigits word ∧ ∃ x, Literal.ofNumber (String.ofList word) =
        .ok ⟨String.ofList word, .double x⟩) := by
  refine ⟨⟨takesLongest_identifier, declinesInPlace_identifier⟩,
    ⟨takesLongest_number, declinesInPlace_number⟩, ⟨fun _ _ => gap_eq_accept_iff, ?_⟩,
    ⟨fun _ _ _ => name_eq_accept_iff_longest, fun _ => name_eq_reject_iff⟩,
    ⟨fun _ _ _ => topicName_eq_accept_iff, fun _ => commits_topicName_iff,
      fun _ => declines_topicName_iff⟩,
    ⟨fun _ _ _ => quoted_eq_accept_iff, fun _ => commits_quoted_iff,
      fun _ => quoted_eq_reject_iff⟩, ?_⟩
  · exact fun s => ⟨_, gap_eq_accept s⟩
  · intro s word t hNumber
    have hWord : IsNumber (String.ofList word).toList := by
      rw [String.toList_ofList]
      exact (accept_of_number hNumber).2
    have hCases := ofNumber_cases hWord
    rw [String.toList_ofList] at hCases
    exact hCases.imp_right fun hCases => hCases.imp_right fun ⟨hDigits, hRead⟩ =>
      ⟨hDigits, _, hRead⟩

/-- The mark and the sign behind a number belong to what comes next if no digit follows. -/
theorem incomplete_exponent_is_left :
    number "1.5e+x".toList = .accept "1.5".toList "e+x".toList ∧
      IsLongest IsNumber "1.5e+x".toList "1.5".toList ∧
      ∃ x, Literal.ofNumber "1.5" = .ok ⟨"1.5", .double x⟩ := by
  have hRead : number "1.5e+x".toList = .accept "1.5".toList "e+x".toList := by decide
  obtain ⟨-, ⟨hNumber, -⟩, -, -, -, -, hLiteral⟩ := lexemes_are_longest
  have hDigits : ¬IsDigits "1.5".toList := fun h => absurd (h.2 '.' (by decide)) (by decide)
  refine ⟨hRead, ((hNumber _ _ _).mp hRead).2, ?_⟩
  have hCases := hLiteral _ _ _ hRead
  rw [String.ofList_toList] at hCases
  rcases hCases with ⟨hInteger, -⟩ | ⟨hInteger, -⟩ | ⟨-, hDouble⟩
  · exact absurd hInteger hDigits
  · exact absurd hInteger hDigits
  · exact hDouble

end TopicSpec.Scan
