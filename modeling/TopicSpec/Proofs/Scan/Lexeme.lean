import TopicSpec.Proofs.Scan.Acceptance

/-! # The languages of lexemes

What identifiers, numbers, quoted texts, topic names and gaps are, without reference to a scanner,
and that the scanners read exactly these. -/

namespace TopicSpec.Scan
set_option autoImplicit false

variable {s t word : List Char}

/-! ## Runs -/

/-- No character of the class stands at the front of a text. -/
def Stops (accepts : Char → Bool) (s : List Char) : Prop := ∀ c ∈ s.head?, accepts c = false

theorem stops_nil (accepts : Char → Bool) : Stops accepts [] := by simp [Stops]

theorem stops_cons_iff {accepts : Char → Bool} {c : Char} :
    Stops accepts (c :: s) ↔ accepts c = false := by simp [Stops]

theorem shorter_of_word (hText : s = word ++ t) (hWord : word ≠ []) :
    t.length < s.length := by
  rw [hText, List.length_append]
  exact Nat.lt_add_of_pos_left (List.length_pos_iff.mpr hWord)

theorem takeWhile_dropWhile_iff {accepts : Char → Bool} :
    s.takeWhile accepts = word ∧ s.dropWhile accepts = t ↔
      s = word ++ t ∧ (∀ c ∈ word, accepts c = true) ∧ Stops accepts t := by
  constructor
  · rintro ⟨rfl, rfl⟩
    refine ⟨List.takeWhile_append_dropWhile.symm, fun c hc => List.all_eq_true.mp
      List.all_takeWhile c hc, ?_⟩
    intro c hc
    have hHead := List.head?_dropWhile_not accepts s
    rw [Option.mem_def.mp hc] at hHead
    simpa using hHead
  · rintro ⟨rfl, hAll, hStops⟩
    rw [List.takeWhile_append_of_pos hAll, List.dropWhile_append_of_pos hAll]
    cases t with
    | nil => simp
    | cons c t => simp [stops_cons_iff.mp hStops]

theorem run_eq_accept_iff {accepts : Char → Bool} :
    run accepts s = .accept word t ↔
      s = word ++ t ∧ (∀ c ∈ word, accepts c = true) ∧ Stops accepts t := by
  rw [← takeWhile_dropWhile_iff]
  simp [run]

theorem someRun_eq_accept_iff {accepts : Char → Bool} :
    someRun accepts s = .accept word t ↔
      s = word ++ t ∧ word ≠ [] ∧ (∀ c ∈ word, accepts c = true) ∧ Stops accepts t := by
  rw [and_left_comm, ← takeWhile_dropWhile_iff]
  unfold someRun
  split
  · rename_i hEmpty
    simp only [reduceCtorEq, hEmpty, false_iff, not_and]
    intro hWord hEq
    exact absurd hEq.symm hWord
  · rename_i c rest hWord
    simp only [Outcome.accept.injEq, hWord]
    constructor
    · rintro ⟨rfl, rfl⟩
      exact ⟨List.cons_ne_nil _ _, rfl, rfl⟩
    · rintro ⟨-, rfl, rfl⟩
      exact ⟨rfl, rfl⟩

theorem someRun_eq_reject {accepts : Char → Bool} (h : Stops accepts s) :
    someRun accepts s = .reject false [] s := by
  cases s with
  | nil => rfl
  | cons c s => simp [someRun, stops_cons_iff.mp h]

/-! ## Words -/

/-- A letter or underscore, and then letters, digits and underscores. -/
def IsIdentifier (word : List Char) : Prop :=
  ∃ c more, word = c :: more ∧ isWordStart c = true ∧ ∀ d ∈ more, isWordChar d = true

instance : DecidablePred IsIdentifier
  | [] => isFalse fun ⟨_, _, hWord, _⟩ => by cases hWord
  | c :: more =>
    decidable_of_iff (isWordStart c = true ∧ more.all isWordChar = true)
      ⟨fun h => ⟨c, more, rfl, h.1, List.all_eq_true.mp h.2⟩, by
        rintro ⟨_, _, ⟨⟩, hStart, hMore⟩
        exact ⟨hStart, List.all_eq_true.mpr hMore⟩⟩

/-- No word goes on at the front of a text. -/
abbrev StopsWord (s : List Char) : Prop := Stops isWordChar s

theorem identifier_eq_accept_iff :
    identifier s = .accept word t ↔ s = word ++ t ∧ IsIdentifier word ∧ StopsWord t := by
  constructor
  · intro h
    unfold identifier at h
    split at h
    · cases h
    · rename_i c rest
      split at h
      · rename_i hStart
        obtain ⟨hText, hWord, hAll, hStops⟩ := someRun_eq_accept_iff.mp h
        cases word with
        | nil => exact absurd rfl hWord
        | cons d more =>
          obtain ⟨rfl, -⟩ := List.cons.inj hText
          exact ⟨hText, ⟨c, more, rfl, hStart, fun e he => hAll e (List.mem_cons_of_mem _ he)⟩,
            hStops⟩
      · cases h
  · rintro ⟨rfl, ⟨c, more, rfl, hStart, hAll⟩, hStops⟩
    have hRun : someRun isWordChar (c :: more ++ t) = .accept (c :: more) t := by
      refine someRun_eq_accept_iff.mpr ⟨rfl, List.cons_ne_nil _ _, ?_, hStops⟩
      intro d hd
      rcases List.mem_cons.mp hd with rfl | hd
      · exact isWordChar_of_isWordStart hStart
      · exact hAll d hd
    simpa [identifier, hStart] using hRun

/-- An identifier that is not reserved. -/
def IsName (word : List Char) : Prop := IsIdentifier word ∧ isReserved word = false

instance : DecidablePred IsName := fun word =>
  inferInstanceAs (Decidable (IsIdentifier word ∧ isReserved word = false))

theorem name_eq_accept_iff :
    name s = .accept word t ↔ s = word ++ t ∧ IsName word ∧ StopsWord t := by
  have hSplit : name s = .accept word t ↔
      identifier s = .accept word t ∧ isReserved word = false := by
    unfold name
    split
    · rename_i found rest hFound
      cases hReserved : isReserved found
      · simp only [Bool.false_eq_true, if_false, hFound, Outcome.accept.injEq]
        constructor
        · rintro ⟨rfl, rfl⟩
          exact ⟨⟨rfl, rfl⟩, hReserved⟩
        · exact fun h => h.1
      · simp only [if_true, reduceCtorEq, hFound, Outcome.accept.injEq, false_iff, not_and]
        rintro ⟨rfl, -⟩
        simp [hReserved]
    · simp_all
  rw [hSplit, identifier_eq_accept_iff, IsName]
  grind

/-- A word that stands as a whole at the front of a text. -/
theorem keyword_eq_accept_iff {keyword : String} {u : Unit} :
    Scan.keyword keyword s = .accept u t ↔ s = keyword.toList ++ t ∧ StopsWord t := by
  unfold Scan.keyword
  rw [← dropWord_eq_some_iff]
  cases hRest : dropWord keyword.toList s with
  | none => simp
  | some rest =>
    cases rest with
    | nil =>
      simp only [Outcome.accept.injEq, Option.some.injEq, true_and]
      constructor
      · rintro rfl
        exact ⟨rfl, stops_nil _⟩
      · exact fun h => h.1
    | cons c rest =>
      by_cases hWord : isWordChar c = true
      · simp only [hWord, if_true, reduceCtorEq, Option.some.injEq, false_iff, not_and]
        rintro rfl hStops
        simp [stops_cons_iff.mp hStops] at hWord
      · simp only [if_neg hWord, Outcome.accept.injEq, Option.some.injEq, true_and]
        constructor
        · rintro rfl
          exact ⟨rfl, stops_cons_iff.mpr (by simpa using hWord)⟩
        · exact fun h => h.1

theorem accept_of_oneKeyword {first found : String} {more : List String}
    (h : oneKeyword first more s = .accept found t) :
    found ∈ first :: more ∧ s = found.toList ++ t ∧ StopsWord t := by
  obtain ⟨q, hq, hAccept⟩ := accept_of_firstOf h
  obtain ⟨m, hm, rfl⟩ : ∃ m ∈ first :: more, (Scan.keyword m >>= fun _ => pure m) = q := by
    rcases List.mem_cons.mp hq with rfl | hq
    · exact ⟨first, List.mem_cons_self, rfl⟩
    · obtain ⟨m, hm, rfl⟩ := List.mem_map.mp hq
      exact ⟨m, List.mem_cons_of_mem _ hm, rfl⟩
  obtain ⟨_, rfl, hKeyword⟩ := accept_of_map hAccept
  exact ⟨hm, keyword_eq_accept_iff.mp hKeyword⟩

/-! ## Topic names -/

/-- Identifiers with slashes between them, after an optional slash or tilde. -/
def IsTopicName (word : List Char) : Prop :=
  ∃ lead first more, word = lead ++ first ++ List.flatten more ∧
    (lead = [] ∨ lead = ['/'] ∨ lead = ['~']) ∧ IsIdentifier first ∧
    ∀ segment ∈ more, ∃ name, segment = '/' :: name ∧ IsIdentifier name

theorem accept_of_topicSegment {segment : List Char}
    (h : topicSegment s = .accept (some segment) t) :
    s = segment ++ t ∧ ∃ name, segment = '/' :: name ∧ IsIdentifier name := by
  obtain ⟨slash?, m, hSlash, hRest⟩ := bind_eq_accept_iff.mp h
  rcases accept_of_optional hSlash with ⟨rfl, rfl⟩ | ⟨slash, rfl, hOne⟩
  · simp [pure_eq_accept_iff] at hRest
  · obtain ⟨rfl, hIsSlash⟩ := oneOf_eq_accept_iff.mp hOne
    obtain rfl : slash = '/' := by simpa using hIsSlash
    obtain ⟨name, n, hName, hPure⟩ := bind_eq_accept_iff.mp hRest
    obtain ⟨hEq, rfl⟩ := pure_eq_accept_iff.mp hPure
    obtain ⟨rfl, hIdentifier, -⟩ := identifier_eq_accept_iff.mp (require_eq_accept_iff.mp hName)
    obtain rfl := Option.some.inj hEq
    exact ⟨rfl, name, rfl, hIdentifier⟩

theorem rest_of_topicSegment_none (h : topicSegment s = .accept none t) : t = s := by
  obtain ⟨slash?, m, hSlash, hRest⟩ := bind_eq_accept_iff.mp h
  rcases accept_of_optional hSlash with ⟨rfl, rfl⟩ | ⟨slash, rfl, -⟩
  · exact (pure_eq_accept_iff.mp hRest).2.symm
  · obtain ⟨name, n, -, hPure⟩ := bind_eq_accept_iff.mp hRest
    simp [pure_eq_accept_iff] at hPure

theorem accept_of_topicName (h : topicName s = .accept word t) :
    s = word ++ t ∧ IsTopicName word := by
  obtain ⟨lead?, m, hLead, hRest⟩ := bind_eq_accept_iff.mp h
  obtain ⟨first, n, hFirst, hRest⟩ := bind_eq_accept_iff.mp hRest
  obtain ⟨more, rfl, hMore⟩ := accept_of_map hRest
  obtain ⟨rfl, hIdentifier, -⟩ := identifier_eq_accept_iff.mp hFirst
  have hSegments : n = more.flatten ++ t ∧
      ∀ segment ∈ more, ∃ name, segment = '/' :: name ∧ IsIdentifier name := by
    obtain ⟨stop, ⟨hText, hAll⟩, hEnd⟩ := many_accept
      (fun before m => n = before.flatten ++ m ∧
        ∀ segment ∈ before, ∃ name, segment = '/' :: name ∧ IsIdentifier name)
      (by simp)
      (by
        rintro before segment m rest ⟨hText, hAll⟩ hStep
        obtain ⟨rfl, hSegment⟩ := accept_of_topicSegment hStep
        refine ⟨by simpa using hText, ?_⟩
        intro other hOther
        rcases List.mem_append.mp hOther with hOther | hOther
        · exact hAll other hOther
        · obtain rfl := List.mem_singleton.mp hOther
          exact hSegment) hMore
    have hStop : t = stop := hEnd.elim rest_of_topicSegment_none id
    exact ⟨hStop ▸ hText, hAll⟩
  obtain ⟨rfl, hAll⟩ := hSegments
  rcases accept_of_optional hLead with ⟨rfl, rfl⟩ | ⟨c, rfl, hOne⟩
  · exact ⟨by simp, [], first, more, rfl, .inl rfl, hIdentifier, hAll⟩
  · obtain ⟨rfl, hc⟩ := oneOf_eq_accept_iff.mp hOne
    refine ⟨by simp, [c], first, more, rfl, .inr ?_, hIdentifier, hAll⟩
    simpa using hc

/-! ## Quoted texts -/

/-- A text between double quotes that holds none itself. -/
def IsQuoted (word : List Char) : Prop := ∃ inner, word = '"' :: inner ++ ['"'] ∧ '"' ∉ inner

theorem quoted_eq_accept_iff : quoted s = .accept word t ↔ s = word ++ t ∧ IsQuoted word := by
  constructor
  · intro h
    obtain ⟨u, m, hOpen, hRest⟩ := bind_eq_accept_iff.mp h
    obtain ⟨inner, n, hInner, hRest⟩ := bind_eq_accept_iff.mp hRest
    obtain ⟨_, rfl, hClose⟩ := accept_of_map hRest
    obtain rfl := literal_eq_accept_iff.mp hOpen
    obtain ⟨rfl, hAll, -⟩ := run_eq_accept_iff.mp hInner
    obtain rfl := literal_eq_accept_iff.mp (require_eq_accept_iff.mp hClose)
    refine ⟨by simp, inner, rfl, ?_⟩
    intro hQuote
    simpa using hAll _ hQuote
  · rintro ⟨rfl, inner, rfl, hInner⟩
    refine bind_eq_accept_iff.mpr ⟨(), inner ++ '"' :: t, ?_, ?_⟩
    · exact literal_eq_accept_iff.mpr (by simp)
    · refine bind_eq_accept_iff.mpr ⟨inner, '"' :: t, ?_, ?_⟩
      · refine run_eq_accept_iff.mpr ⟨rfl, ?_, stops_cons_iff.mpr (by simp)⟩
        rintro c hc
        simpa using fun hEq : c = '"' => hInner (hEq ▸ hc)
      · refine bind_eq_accept_iff.mpr ⟨(), t, ?_, rfl⟩
        exact require_eq_accept_iff.mpr (literal_eq_accept_iff.mpr rfl)

/-! ## Numbers -/

def IsDigits (word : List Char) : Prop := word ≠ [] ∧ ∀ c ∈ word, c.isDigit = true

def IsFraction (word : List Char) : Prop := ∃ digits, word = '.' :: digits ∧ IsDigits digits

def IsExponent (word : List Char) : Prop :=
  ∃ mark sign digits, word = mark :: (sign ++ digits) ∧ (mark = 'e' ∨ mark = 'E') ∧
    (sign = [] ∨ sign = ['+'] ∨ sign = ['-']) ∧ IsDigits digits

/-- Digits, with a fraction or without, with an exponent or without. -/
def IsNumber (word : List Char) : Prop :=
  ∃ whole part power, word = whole ++ part ++ power ∧ IsDigits whole ∧
    (part = [] ∨ IsFraction part) ∧ (power = [] ∨ IsExponent power)

theorem digits_eq_accept_iff :
    someRun Char.isDigit s = .accept word t ↔
      s = word ++ t ∧ IsDigits word ∧ Stops Char.isDigit t := by
  rw [someRun_eq_accept_iff, IsDigits, and_assoc]

theorem fraction_eq_accept_iff :
    fraction s = .accept word t ↔ s = word ++ t ∧ IsFraction word ∧ Stops Char.isDigit t := by
  constructor
  · intro h
    obtain ⟨point, m, hPoint, hRest⟩ := bind_eq_accept_iff.mp h
    obtain ⟨digits, rfl, hDigits⟩ := accept_of_map hRest
    obtain ⟨rfl, hIsPoint⟩ := oneOf_eq_accept_iff.mp hPoint
    obtain ⟨rfl, hDigits, hStops⟩ := digits_eq_accept_iff.mp hDigits
    obtain rfl : point = '.' := by simpa using hIsPoint
    exact ⟨rfl, ⟨digits, rfl, hDigits⟩, hStops⟩
  · rintro ⟨rfl, ⟨digits, rfl, hDigits⟩, hStops⟩
    refine bind_eq_accept_iff.mpr ⟨'.', digits ++ t, oneOf_eq_accept_iff.mpr ⟨rfl, by simp⟩, ?_⟩
    exact bind_eq_accept_iff.mpr ⟨digits, t, digits_eq_accept_iff.mpr ⟨rfl, hDigits, hStops⟩, rfl⟩

theorem accept_of_sign {sign? : Option Char}
    (h : optional (oneOf fun c => c == '+' || c == '-') s = .accept sign? t) :
    s = sign?.toList ++ t ∧
      (sign?.toList = [] ∨ sign?.toList = ['+'] ∨ sign?.toList = ['-']) := by
  rcases accept_of_optional h with ⟨rfl, rfl⟩ | ⟨sign, rfl, hSign⟩
  · exact ⟨rfl, .inl rfl⟩
  · obtain ⟨rfl, hIsSign⟩ := oneOf_eq_accept_iff.mp hSign
    exact ⟨rfl, .inr (by simpa using hIsSign)⟩

theorem accept_of_exponent (h : exponent s = .accept word t) :
    s = word ++ t ∧ IsExponent word ∧ Stops Char.isDigit t := by
  obtain ⟨mark, m, hMark, hRest⟩ := bind_eq_accept_iff.mp h
  obtain ⟨sign?, n, hSign, hRest⟩ := bind_eq_accept_iff.mp hRest
  obtain ⟨digits, rfl, hDigits⟩ := accept_of_map hRest
  obtain ⟨rfl, hIsMark⟩ := oneOf_eq_accept_iff.mp hMark
  obtain ⟨rfl, hIsSign⟩ := accept_of_sign hSign
  obtain ⟨rfl, hDigits, hStops⟩ := digits_eq_accept_iff.mp hDigits
  exact ⟨by simp, ⟨mark, sign?.toList, digits, rfl, by simpa using hIsMark, hIsSign, hDigits⟩,
    hStops⟩

theorem accept_of_optional_word {p : Scan (List Char)} {language : List Char → Prop}
    (hWord : ∀ {s word t}, p s = .accept word t → s = word ++ t ∧ language word)
    {word? : Option (List Char)} (h : optional p s = .accept word? t) :
    s = word?.getD [] ++ t ∧ (word?.getD [] = [] ∨ language (word?.getD [])) := by
  rcases accept_of_optional h with ⟨rfl, rfl⟩ | ⟨word, rfl, hAccept⟩
  · exact ⟨rfl, .inl rfl⟩
  · exact ⟨(hWord hAccept).1, .inr (hWord hAccept).2⟩

theorem accept_of_number (h : number s = .accept word t) : s = word ++ t ∧ IsNumber word := by
  obtain ⟨whole, m, hWhole, hRest⟩ := bind_eq_accept_iff.mp h
  obtain ⟨part?, n, hPart, hRest⟩ := bind_eq_accept_iff.mp hRest
  obtain ⟨power?, rfl, hPower⟩ := accept_of_map hRest
  obtain ⟨rfl, hDigits, -⟩ := digits_eq_accept_iff.mp hWhole
  obtain ⟨rfl, hFraction⟩ := accept_of_optional_word
    (fun h => (fraction_eq_accept_iff.mp h).imp_right And.left) hPart
  obtain ⟨rfl, hExponent⟩ := accept_of_optional_word
    (fun h => (accept_of_exponent h).imp_right And.left) hPower
  exact ⟨by simp, whole, part?.getD [], power?.getD [], rfl, hDigits, hFraction, hExponent⟩

/-! ## Gaps -/

/-- Blanks, line ends and comments between the two places of a text. A comment ends at the end of
its line, or with the text. -/
inductive Gap : List Char → List Char → Prop where
  | nothing (s : List Char) : Gap s s
  | blank {c : Char} {s t : List Char} : isGapChar c = true → Gap s t → Gap (c :: s) t
  | comment {text s t : List Char} : '\n' ∉ text → Gap s t → Gap ('#' :: text ++ '\n' :: s) t
  | lastComment {text : List Char} : '\n' ∉ text → Gap ('#' :: text) []

theorem Gap.trans {m : List Char} (hFirst : Gap s m) (hSecond : Gap m t) : Gap s t := by
  induction hFirst with
  | nothing => exact hSecond
  | blank hBlank _ ih => exact .blank hBlank (ih hSecond)
  | comment hText _ ih => exact .comment hText (ih hSecond)
  | lastComment hText =>
    cases hSecond
    exact .lastComment hText

theorem suffix_of_gap (h : Gap s t) : t <:+ s := by
  induction h with
  | nothing s => exact List.suffix_refl s
  | blank _ _ ih => exact ih.trans (List.suffix_cons _ _)
  | comment _ _ ih => exact (ih.trans (List.suffix_cons _ _)).trans (List.suffix_append _ _)
  | lastComment => exact List.nil_suffix

theorem gap_afterGap (s : List Char) :
    Gap s (afterGap false s) ∧
      ∀ text, '\n' ∉ text → Gap ('#' :: text ++ s) (afterGap true s) := by
  induction s with
  | nil =>
    refine ⟨.nothing [], ?_⟩
    intro text hText
    simpa [afterGap] using Gap.lastComment hText
  | cons c s ih =>
    constructor
    · by_cases hBlank : isGapChar c = true
      · simpa [afterGap, hBlank] using Gap.blank hBlank ih.1
      · by_cases hComment : c = '#'
        · subst hComment
          simpa [afterGap, isGapChar] using ih.2 [] (by simp)
        · simpa [afterGap, hBlank, hComment] using Gap.nothing (c :: s)
    · intro text hText
      by_cases hEnd : c = '\n'
      · subst hEnd
        simpa [afterGap] using Gap.comment hText ih.1
      · have hLonger := ih.2 (text ++ [c]) (by simp [hText, Ne.symm hEnd])
        simpa [afterGap, show (c != '\n') = true by simpa using hEnd] using hLonger

theorem length_afterGap_le (comment : Bool) (s : List Char) :
    (afterGap comment s).length ≤ s.length := by
  induction s generalizing comment with
  | nil => exact Nat.le_refl _
  | cons c s ih =>
    have hMore := fun comment => Nat.le_succ_of_le (ih comment)
    unfold afterGap
    split
    · exact hMore _
    · split
      · exact hMore _
      · split
        · exact hMore _
        · exact Nat.le_refl _

/-- The text of a comment is skipped. -/
theorem afterGap_text {text : List Char} (h : '\n' ∉ text) (s : List Char) :
    afterGap true (text ++ s) = afterGap true s := by
  induction text with
  | nil => rfl
  | cons c text ih =>
    obtain ⟨hc, hText⟩ := not_or.mp (mt List.mem_cons.mpr h)
    have hOpen : (c != '\n') = true := bne_iff_ne.mpr (Ne.symm hc)
    rw [List.cons_append, afterGap, if_pos rfl, hOpen, ih hText]

theorem afterGap_comment {text : List Char} (h : '\n' ∉ text) (s : List Char) :
    afterGap true (text ++ '\n' :: s) = afterGap false s := afterGap_text h ('\n' :: s)

theorem afterGap_lastComment {text : List Char} (h : '\n' ∉ text) : afterGap true text = [] := by
  simpa [afterGap] using afterGap_text h []

theorem afterGap_of_gap (h : Gap s t) : afterGap false s = afterGap false t := by
  induction h with
  | nothing s => rfl
  | blank hBlank _ ih => simpa [afterGap, hBlank] using ih
  | comment hText _ ih =>
    rw [← ih, List.cons_append]
    exact afterGap_comment hText _
  | lastComment hText => exact afterGap_lastComment hText

theorem gap_of_accept {u : Unit} (h : gap s = .accept u t) : Gap s t := by
  obtain rfl : afterGap false s = t := by simpa [gap] using h
  exact (gap_afterGap s).1

theorem accept_of_gap {α : Type} {p : Scan α} {a : α}
    (h : (gap >>= fun _ => p) s = .accept a t) : ∃ m, Gap s m ∧ p m = .accept a t := by
  obtain ⟨_, m, hGap, hAccept⟩ := bind_eq_accept_iff.mp h
  exact ⟨m, gap_of_accept hGap, hAccept⟩

theorem accept_of_thenGap {α β : Type} {p : Scan α} {f : α → Scan β} {b : β}
    (h : (p >>= fun a => gap >>= fun _ => f a) s = .accept b t) :
    ∃ a m n, p s = .accept a m ∧ Gap m n ∧ f a n = .accept b t := by
  obtain ⟨a, m, hAccept, hRest⟩ := bind_eq_accept_iff.mp h
  obtain ⟨n, hGap, hBehind⟩ := accept_of_gap hRest
  exact ⟨a, m, n, hAccept, hGap, hBehind⟩

end TopicSpec.Scan
