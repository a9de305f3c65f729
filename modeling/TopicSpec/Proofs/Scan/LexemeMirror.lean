import TopicSpec.Proofs.Scan.Mirror
import TopicSpec.Proofs.Scan.Settlement

/-! # Lexemes side by side

The front of a text tells a lexeme from what follows it, and alike texts have alike fronts. -/

namespace TopicSpec.Scan
set_option autoImplicit false

/-! ## Gaps -/

theorem Likeness.mirrors_gap {L : Likeness} {m m' : Nat} :
    Mirrors False (L.Near m m') (fun _ => L.Near m m') Scan.gap Scan.gap := by
  intro s s' hs
  exact .accept ⟨L.gap hs.like, Nat.lt_of_le_of_lt (length_afterGap_le _ _) hs.left,
    Nat.lt_of_le_of_lt (length_afterGap_le _ _) hs.right⟩

namespace Mirrors

variable {α β : Type} {lost : Prop} {P : List Char → List Char → Prop}
  {R : β → List Char → List Char → Prop} {L : Likeness} {m m' : Nat} {p p' : Scan α}
  {f f' : α → Scan β}

theorem thenGap (hp : Mirrors lost P (fun _ => L.Near m m') p p')
    (hEnd : lost → ∀ a, (f' a []).IsOver) (hf : ∀ a, Mirrors lost (L.Near m m') R (f a) (f' a)) :
    Mirrors lost P R (p >>= fun a => gap >>= fun _ => f a)
      (p' >>= fun a => gap >>= fun _ => f' a) := by
  apply hp.bind
  · exact fun hLost a => isOver_bind rfl fun _ => hEnd hLost a
  · intro a
    apply Likeness.mirrors_gap.andThen
    exact fun _ => hf a

theorem andThenGap (hp : Mirrors False P (fun _ => L.Near m m') p p')
    (hf : ∀ a, Mirrors lost (L.Near m m') R (f a) (f' a)) :
    Mirrors lost P R (p >>= fun a => gap >>= fun _ => f a)
      (p' >>= fun a => gap >>= fun _ => f' a) := by
  apply hp.andThen
  intro a
  apply Likeness.mirrors_gap.andThen
  exact fun _ => hf a

end Mirrors

/-! ## Lexemes -/

namespace Likeness

variable {L : Likeness} {s s' : List Char} {accepts : Char → Bool}

theorem mirrored_of_declines {α : Type} {lost : Prop} {Q : α → List Char → List Char → Prop}
    {p : Scan α} (h : Declines p s) (h' : Declines p s') : Mirrored lost Q (p s) (p s') := by
  obtain ⟨expected, rest, hReject⟩ := h
  obtain ⟨expected', rest', hReject'⟩ := h'
  rw [hReject, hReject']
  exact .reject

/-- What the scanner reads is a lexeme that holds no gap. -/
def Lexical (L : Likeness) {α : Type} (p : Scan α) : Prop :=
  ∀ m m', Mirrors False (L.Near (m + 1) (m' + 1)) (fun _ => L.Near m m') p p

section
variable {α : Type} {p q : Scan α} {m m' : Nat}

theorem Lexical.weak (h : L.Lexical p) :
    Mirrors False (L.Near m m') (fun _ => L.Near m m') p p := by
  cases m with
  | zero => exact fun s s' hs => absurd hs.left (Nat.not_lt_zero _)
  | succ m =>
    cases m' with
    | zero => exact fun s s' hs => absurd hs.right (Nat.not_lt_zero _)
    | succ m' =>
      exact (h m m').imp (fun _ _ hs => hs) fun _ _ _ hr =>
        hr.mono (Nat.le_succ m) (Nat.le_succ m')

theorem Lexical.optional (h : L.Lexical p) :
    Mirrors False (L.Near m m') (fun _ => L.Near m m') (optional p) (Scan.optional p) :=
  h.weak.optional (fun _ _ hs => hs) fun _ _ _ hr => hr

theorem Lexical.map {β : Type} {f : α → β} (h : L.Lexical p) :
    L.Lexical (p >>= fun a => pure (f a)) :=
  fun m m' => (h m m').andThen fun _ => Mirrors.pure fun _ _ hs => hs

theorem Lexical.firstOf {more : List (Scan α)} (h : L.Lexical p)
    (hMore : ∀ q ∈ more, L.Lexical q) : L.Lexical (firstOf p more) :=
  fun m m' => (h m m').firstOf (List.forall₂_same.mpr fun q hq => hMore q hq m m')

theorem lexical_of (h : ∀ s s', L.like s s' → Mirrored False
    (fun _ r r' => L.like r r' ∧ r.length < s.length ∧ r'.length < s'.length) (p s) (p s')) :
    L.Lexical p := by
  intro m m' s s' hs
  apply (h s s' hs.like).imp
  rintro a r r' ⟨hLike, hLeft, hRight⟩
  exact ⟨hLike, Nat.lt_of_lt_of_le hLeft (Nat.le_of_lt_succ hs.left),
    Nat.lt_of_lt_of_le hRight (Nat.le_of_lt_succ hs.right)⟩

end

theorem length_of_dropWord {word r : List Char} (hWord : word ≠ []) (h : dropWord word s = some r) :
    r.length < s.length := shorter_of_word (dropWord_eq_some_iff.mp h) hWord

theorem lexical_literal {word : String} (hWord : word.toList.all isOrdinary = true)
    (hNonempty : word.toList ≠ []) : L.Lexical (literal word) := by
  apply lexical_of
  intro s s' hLike
  unfold literal
  rcases dropWord_cases hWord hLike with ⟨r, r', hs, hs', hRest⟩ | ⟨hs, hs'⟩
  · rw [hs, hs']
    exact .accept ⟨hRest, length_of_dropWord hNonempty hs, length_of_dropWord hNonempty hs'⟩
  · rw [hs, hs']
    exact .reject

theorem lexical_keyword {word : String} (hWord : word.toList.all isOrdinary = true)
    (hNonempty : word.toList ≠ []) : L.Lexical (keyword word) := by
  have hDeclines : ∀ t, (∀ r, dropWord word.toList t = some r → ¬StopsWord r) →
      Declines (Scan.keyword word) t := fun t hNone =>
    declines_keyword fun r hText => hNone r (dropWord_eq_some_iff.mpr hText)
  apply lexical_of
  intro s s' hLike
  rcases dropWord_cases hWord hLike with ⟨r, r', hs, hs', hRest⟩ | ⟨hs, hs'⟩
  · have hBoth : StopsWord r ↔ StopsWord r' := stops_iff (fun _ => isOrdinary_of_isWordChar) hRest
    by_cases hStops : StopsWord r
    · have hRead : Scan.keyword word s = .accept () r :=
        keyword_eq_accept_iff.mpr ⟨dropWord_eq_some_iff.mp hs, hStops⟩
      have hRead' : Scan.keyword word s' = .accept () r' :=
        keyword_eq_accept_iff.mpr ⟨dropWord_eq_some_iff.mp hs', hBoth.mp hStops⟩
      rw [hRead, hRead']
      exact .accept ⟨hRest, length_of_dropWord hNonempty hs, length_of_dropWord hNonempty hs'⟩
    · have hStops' : ¬StopsWord r' := mt hBoth.mpr hStops
      exact mirrored_of_declines (hDeclines s (by simp [hs, hStops]))
        (hDeclines s' (by simp [hs', hStops']))
  · exact mirrored_of_declines (hDeclines s (by simp [hs])) (hDeclines s' (by simp [hs']))

theorem lexical_oneMark {mark : String} {more : List String}
    (hMarks : ∀ m ∈ mark :: more, m.toList.all isOrdinary = true ∧ m.toList ≠ []) :
    L.Lexical (oneMark mark more) := by
  obtain ⟨hMark, hMore⟩ := List.forall_mem_cons.mp hMarks
  apply (lexical_literal hMark.1 hMark.2).map.firstOf
  intro q hq
  obtain ⟨m, hm, rfl⟩ := List.mem_map.mp hq
  exact (lexical_literal (hMore m hm).1 (hMore m hm).2).map

theorem lexical_oneKeyword {word : String} {more : List String}
    (hWords : ∀ m ∈ word :: more, m.toList.all isOrdinary = true ∧ m.toList ≠ []) :
    L.Lexical (oneKeyword word more) := by
  obtain ⟨hWord, hMore⟩ := List.forall_mem_cons.mp hWords
  apply (lexical_keyword hWord.1 hWord.2).map.firstOf
  intro q hq
  obtain ⟨m, hm, rfl⟩ := List.mem_map.mp hq
  exact (lexical_keyword (hMore m hm).1 (hMore m hm).2).map

theorem lexical_oneOf (hClass : ∀ c, accepts c = true → isOrdinary c = true) :
    L.Lexical (oneOf accepts) := by
  apply lexical_of
  intro s s' hLike
  rcases ordinary_front hLike with ⟨c, r, r', rfl, rfl, hRest⟩ | ⟨hs, hs'⟩
  · by_cases hAccepts : accepts c = true
    · simp only [oneOf, hAccepts, if_true]
      exact .accept ⟨hRest, Nat.lt_succ_self _, Nat.lt_succ_self _⟩
    · simp only [oneOf, hAccepts]
      exact .reject
  · exact mirrored_of_declines (declines_oneOf (stops_of_ordinary hClass hs))
      (declines_oneOf (stops_of_ordinary hClass hs'))

theorem lexical_someRun (hClass : ∀ c, accepts c = true → isOrdinary c = true) :
    L.Lexical (someRun accepts) := by
  have hShorter : ∀ t : List Char, t.takeWhile accepts ≠ [] →
      (t.dropWhile accepts).length < t.length := fun _ =>
    shorter_of_word List.takeWhile_append_dropWhile.symm
  apply lexical_of
  intro s s' hLike
  obtain ⟨hTake, hDrop⟩ := runs_eq hClass hLike
  cases hWord : s.takeWhile accepts with
  | nil =>
    simp only [someRun, ← hTake, hWord]
    exact .reject
  | cons c word =>
    have hs := hShorter s (by simp [hWord])
    have hs' := hShorter s' (by simp [← hTake, hWord])
    simp only [someRun, ← hTake, hWord]
    exact .accept ⟨hDrop, hs, hs'⟩

theorem lexical_identifier : L.Lexical identifier := by
  have hWord : ∀ c, isWordStart c = true → isOrdinary c = true := fun _ h =>
    isOrdinary_of_isWordChar (isWordChar_of_isWordStart h)
  have hSplit : ∀ t, (Stops isWordStart t → Declines identifier t) ∧
      (¬Stops isWordStart t → identifier t = someRun isWordChar t) := by
    intro t
    cases t with
    | nil => exact ⟨fun _ => ⟨_, _, rfl⟩, fun h => absurd (stops_nil _) h⟩
    | cons c t =>
      rw [stops_cons_iff]
      constructor
      · intro hc
        exact ⟨[], c :: t, by simp [identifier, hc]⟩
      · intro hc
        simp [identifier, show isWordStart c = true by simpa using hc]
  intro m m' s s' hs
  have hBoth := stops_iff hWord hs.like
  by_cases hStops : Stops isWordStart s
  · exact mirrored_of_declines ((hSplit s).1 hStops) ((hSplit s').1 (hBoth.mp hStops))
  · rw [(hSplit s).2 hStops, (hSplit s').2 (mt hBoth.mpr hStops)]
    exact lexical_someRun (fun _ => isOrdinary_of_isWordChar) m m' s s' hs

theorem lexical_name : L.Lexical name := by
  intro m m' s s' hs
  have hWord := lexical_identifier m m' s s' hs
  unfold name
  generalize identifier s = o at hWord
  generalize identifier s' = o' at hWord
  cases hWord with
  | @accept word _ _ hAccept =>
    cases hReserved : isReserved word with
    | true =>
      simp only [hReserved, if_true]
      exact .reject
    | false =>
      simp only [hReserved]
      exact .accept hAccept
  | reject => exact .reject
  | ended hLost => exact absurd hLost id

theorem lexical_topicSegment {m m' : Nat} :
    Mirrors False (L.Near (m + 1) (m' + 1)) (L.Advance m m') topicSegment topicSegment := by
  have hSlash : L.Lexical (oneOf (· == '/')) :=
    lexical_oneOf fun c hc => by rw [beq_iff_eq.mp hc]; rfl
  apply Mirrors.andThen
  · exact (hSlash m m').optional (R := fun c? => L.Advance m m' c?) (fun _ _ h => h)
      fun _ _ _ h => h
  · intro slash?
    cases slash? with
    | none => exact Mirrors.pure fun _ _ h => h
    | some slash =>
      apply lexical_identifier.weak.require.andThen
      exact fun _ => Mirrors.pure fun _ _ h => h

theorem lexical_topicName : L.Lexical topicName := by
  have hLead : L.Lexical (oneOf fun c => c == '/' || c == '~') := by
    apply lexical_oneOf
    intro c hc
    rcases Bool.or_eq_true_iff.mp hc with hc | hc <;> rw [beq_iff_eq.mp hc] <;> rfl
  intro m m'
  apply hLead.optional.andThen
  intro lead
  apply (lexical_identifier m m').andThen
  intro first
  apply Mirrors.andThen
  · exact mirrors_many (fun _ _ _ _ => lexical_topicSegment) nofun
  · exact fun more => Mirrors.pure fun _ _ h => h

theorem isOrdinary_of_isDigit {c : Char} (h : c.isDigit = true) : isOrdinary c = true :=
  isOrdinary_of_isWordChar (by simp [isWordChar, Char.isAlphanum, h])

theorem lexical_number : L.Lexical number := by
  have hDigits : L.Lexical (someRun Char.isDigit) :=
    lexical_someRun fun _ => isOrdinary_of_isDigit
  have hPoint : L.Lexical (oneOf (· == '.')) :=
    lexical_oneOf fun c hc => by rw [beq_iff_eq.mp hc]; rfl
  have hEither : ∀ c d : Char, isOrdinary c = true → isOrdinary d = true →
      L.Lexical (oneOf fun e => e == c || e == d) := by
    intro c d hc hd
    apply lexical_oneOf
    intro e he
    rcases Bool.or_eq_true_iff.mp he with he | he <;> rw [beq_iff_eq.mp he] <;> assumption
  have hFraction : L.Lexical fraction := fun m m' =>
    (hPoint m m').andThen fun _ => hDigits.weak.map
  have hExponent : L.Lexical exponent := fun m m' =>
    (hEither 'e' 'E' rfl rfl m m').andThen fun _ =>
      (hEither '+' '-' rfl rfl).optional.andThen fun _ => hDigits.weak.map
  intro m m'
  apply (hDigits m m').andThen
  intro whole
  apply hFraction.optional.andThen
  intro part
  exact hExponent.optional.map

theorem lexical_quoted : L.Lexical quoted := by
  apply lexical_of
  intro s s' hLike
  -- The fronts are told apart by cases once the relation is a variable.
  generalize hRelation : L.like = like at hLike ⊢
  generalize hCloser : L.closer = closer
  have hFront : Front like closer s s' := by
    subst hRelation hCloser
    exact L.front hLike
  have hBare : ∀ t, IsBare t → Declines quoted t := by
    rintro t ht
    apply declines_quoted
    rintro r rfl
    exact (ht '"' rfl).2 rfl
  cases hFront with
  | @plain c r r' hPlain hTail =>
    have hNone : ∀ t u, c :: t ≠ '"' :: u := fun t u hEq => hPlain.2.2 (List.cons.inj hEq).1
    exact mirrored_of_declines (declines_quoted (hNone r)) (declines_quoted (hNone r'))
  | @quotation text r r' hText hTail =>
    have hRead : ∀ t, quoted ('"' :: text ++ '"' :: t) =
        .accept ('"' :: text ++ ['"']) t := fun t =>
      quoted_eq_accept_iff.mpr ⟨by simp, text, rfl, hText⟩
    rw [hRead, hRead]
    refine .accept ⟨hTail, ?_, ?_⟩
    · simp only [List.length_append, List.length_cons]
      omega
    · simp only [List.length_append, List.length_cons]
      omega
  | openQuotation hText hText' =>
    obtain ⟨expected, hRead⟩ := quoted_of_open hText
    obtain ⟨expected', hRead'⟩ := quoted_of_open hText'
    rw [hRead, hRead']
    exact .reject
  | bare hs hs' =>
    exact mirrored_of_declines (hBare _ hs) (hBare _ hs')
  | @closed c hClosed =>
    have hNone : ∀ u, [c] ≠ '"' :: u := by
      rintro u hEq
      obtain rfl := (List.cons.inj hEq).1
      rcases L.closes (hCloser.trans hClosed) with hc | hc <;> cases hc
    exact mirrored_of_declines (declines_quoted fun r => (List.cons_ne_nil '"' r).symm)
      (declines_quoted hNone)

/-! ## Closing marks -/

/-- A mark that is required here may be found by the second run alone. -/
theorem mirrors_closingMark {mark : String} {c : Char} {e : Expectation} {m m' : Nat}
    (hMark : mark.toList = [c]) (hPlain : IsPlain c) :
    Mirrors L.Closes (L.Near m m') (fun _ => L.Near m m') (require e (literal mark))
      (Scan.require e (literal mark)) := by
  have hFound : ∀ t, literal mark (c :: t) = .accept () t := fun t =>
    literal_eq_accept_iff.mpr (by rw [hMark]; rfl)
  have hMissed : ∀ t, (∀ r, t ≠ c :: r) → ∃ expected rest,
      Scan.require e (literal mark) t = .reject true expected rest := fun t ht =>
    require_of_declines (declines_literal (by rw [hMark]; exact ht))
  have hBothMissed : ∀ t t', (∀ r, t ≠ c :: r) → (∀ r, t' ≠ c :: r) →
      Mirrored L.Closes (fun _ => L.Near m m') (Scan.require e (literal mark) t)
        (Scan.require e (literal mark) t') := by
    intro t t' ht ht'
    obtain ⟨expected, rest, hReject⟩ := hMissed t ht
    obtain ⟨expected', rest', hReject'⟩ := hMissed t' ht'
    rw [hReject, hReject']
    exact .reject
  have hFoundRequired : ∀ t, Scan.require e (literal mark) (c :: t) = .accept () t := fun t =>
    require_eq_accept_iff.mpr (hFound t)
  intro s s' hs
  have hLike := hs.like
  generalize hRelation : L.like = like at hLike
  generalize hCloser : L.closer = closer
  have hFront : Front like closer s s' := by
    subst hRelation hCloser
    exact L.front hLike
  cases hFront with
  | @plain d r r' _ hTail =>
    by_cases hEq : d = c
    · subst hEq
      rw [hFoundRequired, hFoundRequired]
      refine .accept ⟨hRelation ▸ hTail, ?_, ?_⟩
      · exact Nat.lt_of_succ_lt hs.left
      · exact Nat.lt_of_succ_lt hs.right
    · have hNone : ∀ t r, d :: t ≠ c :: r := fun t r h => hEq (List.cons.inj h).1
      exact hBothMissed _ _ (hNone r) (hNone r')
  | quotation =>
    have hNone : ∀ t r, '"' :: t ≠ c :: r := fun t r h => hPlain.2.2 (List.cons.inj h).1.symm
    exact hBothMissed _ _ (hNone _) (hNone _)
  | openQuotation =>
    have hNone : ∀ t r, '"' :: t ≠ c :: r := fun t r h => hPlain.2.2 (List.cons.inj h).1.symm
    exact hBothMissed _ _ (hNone _) (hNone _)
  | bare hs hs' =>
    have hNone : ∀ t, IsBare t → ∀ r, t ≠ c :: r := by
      rintro t ht r rfl
      exact (ht c rfl).1 hPlain
    exact hBothMissed _ _ (hNone _ hs) (hNone _ hs')
  | @closed d hClosed =>
    have hEmpty : ∀ r, [] ≠ c :: r := fun r => (List.cons_ne_nil c r).symm
    by_cases hEq : d = c
    · subst hEq
      obtain ⟨expected, rest, hReject⟩ := hMissed [] hEmpty
      rw [hReject, hFoundRequired]
      exact .ended (by simp [Closes, hCloser, hClosed]) rfl
    · have hNone : ∀ r, [d] ≠ c :: r := fun r h => hEq (List.cons.inj h).1
      exact hBothMissed _ _ hEmpty hNone

end Likeness

end TopicSpec.Scan
