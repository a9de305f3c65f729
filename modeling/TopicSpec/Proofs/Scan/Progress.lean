import Mathlib.Data.List.Forall2
import TopicSpec.Proofs.Scan.Settlement

/-! # Progress

However a scanner ends, it stands at a suffix of the text it was given, and it has read a character
of what it accepts. Loops come to an end for that reason, and so does a recursion, as every round
has a shorter text before it. A scanner is therefore compared with one that calls other scanners
inside: the two end alike on texts that are too short to show the difference. -/

namespace TopicSpec.Scan
set_option autoImplicit false

variable {α β σ : Type} {p p' q q' : Scan α} {m k n n' : Nat} {s t : List Char}
  {after after' : α → Nat}

/-- The scanner stands at a suffix of the text, however it ends. -/
def Stays (p : Scan α) : Prop := ∀ s, (p s).rest <:+ s

/-- The scanner stands at a suffix of the text, however it ends, and at a shorter one if it
accepts. -/
structure Advances (p : Scan α) : Prop where
  suffix : Stays p
  shorter : ∀ {s a t}, p s = .accept a t → t.length < s.length

/-- A step that reads a character at least if it asks for another round. -/
structure AdvancesRound (step : Scan (Option σ)) : Prop where
  suffix : Stays step
  shorter : ∀ {s next t}, step s = .accept (some next) t → t.length < s.length

/-! ## Two runs on one text -/

/-- On every text shorter than `m`, the runs end alike, at a suffix of the text, and if they accept
`a` at one shorter than `after a`. -/
def Agree (m : Nat) (after : α → Nat) (p p' : Scan α) : Prop :=
  ∀ s, s.length < m →
    p s = p' s ∧ (p s).rest <:+ s ∧ ∀ a t, p s = .accept a t → t.length < after a

/-- What a round of a loop leaves of a text of `m` characters or less. -/
def afterRound (m : Nat) : Option σ → Nat
  | none => m + 1
  | some _ => m

theorem Stays.agree (h : Stays p) : Agree m (fun _ => m) p p := by
  intro s hs
  refine ⟨rfl, h s, ?_⟩
  intro a t hAccept
  have hSuffix := h s
  rw [hAccept] at hSuffix
  exact Nat.lt_of_le_of_lt hSuffix.length_le hs

theorem Advances.agree (h : Advances p) : Agree (m + 1) (fun _ => m) p p := by
  intro s hs
  refine ⟨rfl, h.suffix s, ?_⟩
  intro a t hAccept
  exact Nat.lt_of_lt_of_le (h.shorter hAccept) (Nat.le_of_lt_succ hs)

theorem AdvancesRound.agree {step : Scan (Option σ)} (h : AdvancesRound step) :
    Agree (m + 1) (afterRound m) step step := by
  intro s hs
  refine ⟨rfl, h.suffix s, ?_⟩
  intro next? t hAccept
  cases next? with
  | none => exact (h.suffix.agree s hs).2.2 none t hAccept
  | some next => exact Nat.lt_of_lt_of_le (h.shorter hAccept) (Nat.le_of_lt_succ hs)

theorem advances_of_agree (h : ∀ m, Agree (m + 1) (fun _ => m) p p) : Advances p where
  suffix s := (h s.length s (Nat.lt_succ_self _)).2.1
  shorter hAccept := (h _ _ (Nat.lt_succ_self _)).2.2 _ _ hAccept

theorem advancesRound_of_agree {step : Scan (Option σ)}
    (h : ∀ m, Agree (m + 1) (afterRound m) step step) : AdvancesRound step where
  suffix s := (h s.length s (Nat.lt_succ_self _)).2.1
  shorter hAccept := (h _ _ (Nat.lt_succ_self _)).2.2 _ _ hAccept

namespace Agree

theorem mono (h : Agree m after p p') (hm : k ≤ m) (hAfter : ∀ a, after a ≤ after' a) :
    Agree k after' p p' := by
  intro s hs
  obtain ⟨hSame, hSuffix, hShorter⟩ := h s (Nat.lt_of_lt_of_le hs hm)
  exact ⟨hSame, hSuffix, fun a t hAccept => Nat.lt_of_lt_of_le (hShorter a t hAccept) (hAfter a)⟩

/-! ## Combinators -/

theorem pure {a : α} (h : m ≤ after a) : Agree m after (pure a : Scan α) (Pure.pure a) := by
  intro s hs
  refine ⟨rfl, List.suffix_refl s, ?_⟩
  rintro b t hAccept
  obtain ⟨rfl, rfl⟩ := pure_eq_accept_iff.mp hAccept
  exact Nat.lt_of_lt_of_le hs h

theorem bind {f f' : α → Scan β} {final : β → Nat} (hp : Agree m after p p')
    (hf : ∀ a, Agree (after a) final (f a) (f' a)) : Agree m final (p >>= f) (p' >>= f') := by
  intro s hs
  obtain ⟨hSame, hSuffix, hShorter⟩ := hp s hs
  rw [bind_apply, bind_apply, ← hSame]
  cases hRun : p s with
  | accept a t =>
    rw [hRun] at hSuffix
    obtain ⟨hSame', hSuffix', hShorter'⟩ := hf a t (hShorter a t hRun)
    exact ⟨hSame', hSuffix'.trans hSuffix, hShorter'⟩
  | reject committed expected rest =>
    rw [hRun] at hSuffix
    exact ⟨rfl, hSuffix, nofun⟩

theorem commit (h : Agree m after p p') : Agree m after (commit p) (Scan.commit p') := by
  intro s hs
  obtain ⟨hSame, hSuffix, hShorter⟩ := h s hs
  unfold Scan.commit
  rw [← hSame]
  cases hRun : p s with
  | accept a t =>
    rw [hRun] at hSuffix hShorter
    exact ⟨rfl, hSuffix, hShorter⟩
  | reject committed expected rest =>
    rw [hRun] at hSuffix
    exact ⟨rfl, hSuffix, nofun⟩

theorem expecting {e : Expectation} (h : Agree m after p p') :
    Agree m after (expecting e p) (Scan.expecting e p') := by
  intro s hs
  obtain ⟨hSame, hSuffix, hShorter⟩ := h s hs
  unfold Scan.expecting
  rw [← hSame]
  cases hRun : p s with
  | accept a t =>
    rw [hRun] at hSuffix hShorter
    exact ⟨rfl, hSuffix, hShorter⟩
  | reject committed expected rest =>
    rw [hRun] at hSuffix
    exact ⟨rfl, hSuffix, nofun⟩

theorem require {e : Expectation} (h : Agree m after p p') :
    Agree m after (require e p) (Scan.require e p') :=
  h.commit.expecting

theorem orElse (hp : Agree m after p p') (hq : Agree m after q q') :
    Agree m after (orElse p q) (Scan.orElse p' q') := by
  intro s hs
  obtain ⟨hSame, hSuffix, hShorter⟩ := hp s hs
  unfold Scan.orElse
  rw [← hSame]
  cases hRun : p s with
  | accept a t =>
    rw [hRun] at hSuffix hShorter
    exact ⟨rfl, hSuffix, hShorter⟩
  | reject committed expected rest =>
    rw [hRun] at hSuffix
    cases committed with
    | true => exact ⟨rfl, hSuffix, nofun⟩
    | false => exact hq s hs

theorem firstOf {more more' : List (Scan α)} (hp : Agree m after p p')
    (hMore : List.Forall₂ (Agree m after) more more') :
    Agree m after (firstOf p more) (Scan.firstOf p' more') := by
  induction hMore generalizing p p' with
  | nil => exact hp
  | cons hNext _ ih => exact hp.orElse (ih hNext)

/-- Nothing is read where there is no value. -/
theorem optional {final : Option α → Nat} (hp : Agree m after p p') (hNone : m ≤ final none)
    (hSome : ∀ a, after a ≤ final (some a)) :
    Agree m final (optional p) (Scan.optional p') := by
  intro s hs
  obtain ⟨hSame, hSuffix, hShorter⟩ := hp s hs
  unfold Scan.optional
  rw [← hSame]
  cases hRun : p s with
  | accept a t =>
    rw [hRun] at hSuffix
    refine ⟨rfl, hSuffix, ?_⟩
    rintro _ _ ⟨⟩
    exact Nat.lt_of_lt_of_le (hShorter a t hRun) (hSome a)
  | reject committed expected rest =>
    rw [hRun] at hSuffix
    cases committed with
    | true => exact ⟨rfl, hSuffix, nofun⟩
    | false =>
      refine ⟨rfl, List.suffix_refl s, ?_⟩
      rintro _ _ ⟨⟩
      exact Nat.lt_of_lt_of_le hs hNone

/-- A step that reads a character for each value, as the step of a loop. -/
theorem round (hp : Agree (m + 1) (fun _ => m) p p') :
    Agree (m + 1) (afterRound m) (Scan.optional p) (Scan.optional p') :=
  hp.optional (Nat.le_refl _) fun _ => Nat.le_refl _

theorem map {f : α → β} (h : Agree m (fun _ => k) p p') :
    Agree m (fun _ => k) (p >>= fun a => Pure.pure (f a)) (p' >>= fun a => Pure.pure (f a)) :=
  h.bind fun _ => Agree.pure (Nat.le_refl _)

/-! ## Loops -/

/-- Bounds that the text does not reach make no difference. -/
theorem repeatWithin {step step' : σ → Scan (Option σ)}
    (hStep : ∀ m < k, ∀ state, Agree (m + 1) (afterRound m) (step state) (step' state))
    (hm : m ≤ k) (hn : m ≤ n) (hn' : m ≤ n') (state : σ) :
    Agree m (fun _ => k) (repeatWithin step n state) (Scan.repeatWithin step' n' state) := by
  -- The text bounds the rounds before `n` and `n'` do, as each round takes a character from it.
  induction m generalizing n n' state with
  | zero => exact fun s hs => absurd hs (Nat.not_lt_zero _)
  | succ m ih =>
    obtain ⟨n, rfl⟩ := Nat.exists_eq_add_of_lt hn
    obtain ⟨n', rfl⟩ := Nat.exists_eq_add_of_lt hn'
    apply (hStep m hm state).bind
    intro next?
    cases next? with
    | none => exact Agree.pure hm
    | some next => exact ih (Nat.le_of_lt hm) (by omega) (by omega) next

theorem repeated {step step' : σ → Scan (Option σ)}
    (hStep : ∀ m < k, ∀ state, Agree (m + 1) (afterRound m) (step state) (step' state))
    (state : σ) : Agree k (fun _ => k) (repeated step state) (Scan.repeated step' state) :=
  fun s hs =>
    repeatWithin hStep hs (Nat.le_refl _) (Nat.le_refl _) state s (Nat.lt_succ_self _)

theorem manyWithin {step step' : Scan (Option α)}
    (hStep : ∀ m < k, Agree (m + 1) (afterRound m) step step')
    (hm : m ≤ k) (hn : m ≤ n) (hn' : m ≤ n') :
    Agree m (fun _ => k) (manyWithin step n) (Scan.manyWithin step' n') := by
  induction m generalizing n n' with
  | zero => exact fun s hs => absurd hs (Nat.not_lt_zero _)
  | succ m ih =>
    obtain ⟨n, rfl⟩ := Nat.exists_eq_add_of_lt hn
    obtain ⟨n', rfl⟩ := Nat.exists_eq_add_of_lt hn'
    apply (hStep m hm).bind
    intro a?
    cases a? with
    | none => exact Agree.pure hm
    | some a =>
      exact (ih (Nat.le_of_lt hm) (by omega) (by omega)).map

theorem many {step step' : Scan (Option α)}
    (hStep : ∀ m < k, Agree (m + 1) (afterRound m) step step') :
    Agree k (fun _ => k) (many step) (Scan.many step') :=
  fun s hs => manyWithin hStep hs (Nat.le_refl _) (Nat.le_refl _) s (Nat.lt_succ_self _)

end Agree

/-! ## Short texts -/

/-- On every text shorter than `n`, the runs end alike, at a suffix of the text, and at a shorter
one if they accept. -/
def AgreeBelow (n : Nat) (p p' : Scan α) : Prop :=
  ∀ s, s.length < n →
    p s = p' s ∧ (p s).rest <:+ s ∧ ∀ a t, p s = .accept a t → t.length < s.length

theorem agreeBelow_of_agree (h : ∀ m < n, Agree (m + 1) (fun _ => m) p p') : AgreeBelow n p p' :=
  fun s hs => h s.length hs s (Nat.lt_succ_self _)

theorem advances_of_agreeBelow (h : ∀ n, AgreeBelow n p p) : Advances p where
  suffix s := (h (s.length + 1) s (Nat.lt_succ_self _)).2.1
  shorter hAccept := (h _ _ (Nat.lt_succ_self _)).2.2 _ _ hAccept

theorem Advances.agreeBelow (h : Advances p) : AgreeBelow n p p :=
  fun s _ => ⟨rfl, h.suffix s, fun _ _ hAccept => h.shorter hAccept⟩

namespace AgreeBelow

theorem zero : AgreeBelow 0 p p' := fun _ hs => absurd hs (Nat.not_lt_zero _)

theorem eq (h : AgreeBelow n p p') (hs : s.length < n) : p s = p' s := (h s hs).1

theorem left (h : AgreeBelow n p p') : AgreeBelow n p p :=
  fun s hs => ⟨rfl, (h s hs).2⟩

/-- The first run may be changed where the second one is kept. -/
theorem congr (h : AgreeBelow n p p') (hSame : ∀ s, s.length < n → q s = p s) :
    AgreeBelow n q p' := by
  intro s hs
  rw [hSame s hs]
  exact h s hs

theorem agree (h : AgreeBelow n p p') (hm : m < n) : Agree (m + 1) (fun _ => m) p p' := by
  intro s hs
  have hLength := Nat.le_of_lt_succ hs
  obtain ⟨hSame, hSuffix, hShorter⟩ := h s (Nat.lt_of_le_of_lt hLength hm)
  exact ⟨hSame, hSuffix, fun a t hAccept => Nat.lt_of_lt_of_le (hShorter a t hAccept) hLength⟩

theorem weak (h : AgreeBelow n p p') (hm : m ≤ n) : Agree m (fun _ => m) p p' := by
  cases m with
  | zero => exact fun s hs => absurd hs (Nat.not_lt_zero _)
  | succ m => exact (h.agree hm).mono (Nat.le_refl _) fun _ => Nat.le_succ m

end AgreeBelow

/-! ## Unrolled loops -/

/-- A loop whose rounds make progress goes on until its step ends it: the bound on its rounds is
never met. -/
theorem repeated_unrolls {step : σ → Scan (Option σ)} (h : ∀ state, AdvancesRound (step state))
    (state : σ) :
    repeated step state = (step state >>= fun next? =>
      match next? with
      | some next => repeated step next
      | none => pure state) := by
  funext s
  unfold repeated
  rw [repeatWithin, bind_apply, bind_apply]
  cases hRun : step state s with
  | reject committed expected rest => rfl
  | accept next? t =>
    cases next? with
    | none => rfl
    | some next =>
      have hShorter : t.length + 1 ≤ s.length := (h state).shorter hRun
      exact (Agree.repeatWithin (fun m _ state => (h state).agree) (Nat.le_refl _) hShorter
        (Nat.le_refl _) next t (Nat.lt_succ_self _)).1

theorem many_unrolls {step : Scan (Option α)} (h : AdvancesRound step) :
    many step = (step >>= fun a? =>
      match a? with
      | some a => many step >>= fun values => pure (a :: values)
      | none => pure []) := by
  funext s
  unfold many
  rw [manyWithin, bind_apply, bind_apply]
  cases hRun : step s with
  | reject committed expected rest => rfl
  | accept a? t =>
    cases a? with
    | none => rfl
    | some a =>
      have hShorter : t.length + 1 ≤ s.length := h.shorter hRun
      have hMore := (Agree.manyWithin (fun m _ => h.agree) (Nat.le_refl _) hShorter
        (Nat.le_refl _) t (Nat.lt_succ_self _)).1
      show (manyWithin step s.length >>= fun values => pure (a :: values)) t =
        (many step >>= fun values => pure (a :: values)) t
      rw [bind_apply, bind_apply, hMore]
      rfl

/-! ## Progress of parts -/

theorem Advances.weak (h : Advances p) : Agree m (fun _ => m) p p := h.suffix.agree

theorem Advances.optional (h : Advances p) : Agree m (fun _ => m) (optional p) (optional p) :=
  h.weak.optional (Nat.le_refl _) fun _ => Nat.le_refl _

theorem Advances.bind {f : α → Scan β} (hp : Advances p) (hf : ∀ a, Stays (f a)) :
    Advances (p >>= f) :=
  advances_of_agree fun _ => hp.agree.bind fun a => (hf a).agree

theorem stays_pure (a : α) : Stays (pure a : Scan α) := List.suffix_refl

theorem Advances.map {f : α → β} (h : Advances p) : Advances (p >>= fun a => pure (f a)) :=
  h.bind fun a => stays_pure (f a)

theorem Advances.commit (h : Advances p) : Advances (commit p) :=
  advances_of_agree fun _ => h.agree.commit

theorem Advances.orElse (hp : Advances p) (hq : Advances q) : Advances (orElse p q) :=
  advances_of_agree fun _ => hp.agree.orElse hq.agree

theorem Advances.firstOf {more : List (Scan α)} (h : ∀ q ∈ p :: more, Advances q) :
    Advances (firstOf p more) := by
  obtain ⟨hp, hMore⟩ := List.forall_mem_cons.mp h
  exact advances_of_agree fun _ =>
    hp.agree.firstOf (List.forall₂_same.mpr fun q hq => (hMore q hq).agree)

/-! ## Lexemes -/

/-- A scanner takes a word from the front, or does not move on. -/
theorem advances_of_some {p : Scan α} (h : ∀ s, (∃ a read t, s = read ++ t ∧ read ≠ [] ∧
    p s = .accept a t) ∨ ∃ committed expected rest, rest <:+ s ∧
    p s = .reject committed expected rest) : Advances p where
  suffix s := by
    rcases h s with ⟨a, read, t, rfl, -, hAccept⟩ | ⟨_, _, rest, hSuffix, hReject⟩
    · rw [hAccept]
      exact List.suffix_append read t
    · rw [hReject]
      exact hSuffix
  shorter {s a t} hAccept := by
    rcases h s with ⟨a, read, t, hText, hRead, hRun⟩ | ⟨_, _, rest, -, hReject⟩
    · obtain ⟨rfl, rfl⟩ := Outcome.accept.inj (hRun.symm.trans hAccept)
      exact shorter_of_word hText hRead
    · cases hReject.symm.trans hAccept

theorem advances_literal {word : String} (hWord : word.toList ≠ []) : Advances (literal word) := by
  apply advances_of_some
  intro s
  rcases literal_cases word s with ⟨t, hAccept⟩ | hReject
  · exact .inl ⟨(), word.toList, t, literal_eq_accept_iff.mp hAccept, hWord, hAccept⟩
  · exact .inr ⟨_, _, s, List.suffix_refl s, hReject⟩

theorem advances_keyword {word : String} (hWord : word.toList ≠ []) : Advances (keyword word) := by
  apply advances_of_some
  intro s
  rcases keyword_cases word s with ⟨t, hAccept⟩ | hReject
  · exact .inl ⟨(), word.toList, t, (keyword_eq_accept_iff.mp hAccept).1, hWord, hAccept⟩
  · exact .inr ⟨_, _, s, List.suffix_refl s, hReject⟩

theorem advances_oneMark {mark : String} {more : List String}
    (hMarks : ∀ m ∈ mark :: more, m.toList ≠ []) : Advances (oneMark mark more) := by
  obtain ⟨hMark, hMore⟩ := List.forall_mem_cons.mp hMarks
  refine Advances.firstOf (List.forall_mem_cons.mpr ⟨(advances_literal hMark).map, ?_⟩)
  intro q hq
  obtain ⟨m, hm, rfl⟩ := List.mem_map.mp hq
  exact (advances_literal (hMore m hm)).map

theorem advances_oneKeyword {word : String} {more : List String}
    (hWords : ∀ m ∈ word :: more, m.toList ≠ []) : Advances (oneKeyword word more) := by
  obtain ⟨hWord, hMore⟩ := List.forall_mem_cons.mp hWords
  refine Advances.firstOf (List.forall_mem_cons.mpr ⟨(advances_keyword hWord).map, ?_⟩)
  intro q hq
  obtain ⟨m, hm, rfl⟩ := List.mem_map.mp hq
  exact (advances_keyword (hMore m hm)).map

theorem advances_oneOf (accepts : Char → Bool) : Advances (oneOf accepts) := by
  apply advances_of_some
  intro s
  cases s with
  | nil => exact .inr ⟨_, _, [], List.suffix_refl _, rfl⟩
  | cons c s =>
    by_cases hc : accepts c = true
    · exact .inl ⟨c, [c], s, rfl, List.cons_ne_nil _ _, by simp [oneOf, hc]⟩
    · exact .inr ⟨false, [], c :: s, List.suffix_refl _, by simp [oneOf, hc]⟩

theorem stays_run (accepts : Char → Bool) : Stays (run accepts) :=
  fun _ => List.dropWhile_suffix accepts

theorem advances_someRun (accepts : Char → Bool) : Advances (someRun accepts) := by
  apply advances_of_some
  intro s
  rcases someRun_cases accepts s with ⟨word, t, hAccept⟩ | hReject
  · obtain ⟨hText, hWord, -⟩ := someRun_eq_accept_iff.mp hAccept
    exact .inl ⟨word, word, t, hText, hWord, hAccept⟩
  · exact .inr ⟨_, _, s, List.suffix_refl s, hReject⟩

theorem advances_identifier : Advances identifier where
  suffix s := by
    unfold identifier
    split
    · exact List.suffix_refl _
    · split
      · exact (advances_someRun isWordChar).suffix _
      · exact List.suffix_refl _
  shorter hAccept := by
    obtain ⟨hText, ⟨c, more, rfl, -⟩, -⟩ := identifier_eq_accept_iff.mp hAccept
    exact shorter_of_word hText (List.cons_ne_nil _ _)

theorem advances_name : Advances name where
  suffix s := by
    have hSuffix := advances_identifier.suffix s
    unfold name
    split
    · rename_i word rest hRun
      rw [hRun] at hSuffix
      split
      · exact List.suffix_refl s
      · exact hSuffix
    · rename_i hRun
      rwa [hRun] at hSuffix
  shorter hAccept := by
    obtain ⟨hText, ⟨⟨c, more, rfl, -⟩, -⟩, -⟩ := name_eq_accept_iff.mp hAccept
    exact shorter_of_word hText (List.cons_ne_nil _ _)

theorem stays_gap : Stays gap := fun s => suffix_of_gap (gap_afterGap s).1

theorem agree_gap : Agree m (fun _ => m) gap gap := stays_gap.agree

/-- A gap makes no difference to what follows the scanner. -/
theorem Agree.thenGap {f f' : α → Scan β} {final : β → Nat} (h : Agree m after p p')
    (hf : ∀ a, Agree (after a) final (f a) (f' a)) :
    Agree m final (p >>= fun a => gap >>= fun _ => f a)
      (p' >>= fun a => gap >>= fun _ => f' a) := by
  apply h.bind
  intro a
  apply agree_gap.bind
  exact fun _ => hf a

theorem advancesRound_topicSegment : AdvancesRound topicSegment := by
  apply advancesRound_of_agree
  intro m
  apply (advances_oneOf _).agree.round.bind
  intro slash?
  cases slash? with
  | none => exact Agree.pure (Nat.le_refl _)
  | some slash =>
    apply advances_identifier.weak.require.bind
    exact fun _ => Agree.pure (Nat.le_refl _)

theorem advances_topicName : Advances topicName := by
  apply advances_of_agree
  intro m
  apply (advances_oneOf _).optional.bind
  intro lead?
  apply advances_identifier.agree.bind
  intro first
  exact (Agree.many fun _ _ => advancesRound_topicSegment.agree).map

theorem advances_quoted : Advances quoted := by
  apply advances_of_agree
  intro m
  apply (advances_literal (by decide)).agree.bind
  intro _
  apply (stays_run _).agree.bind
  intro inner
  exact (advances_literal (by decide)).weak.require.map

theorem advances_fraction : Advances fraction := by
  apply advances_of_agree
  intro m
  apply (advances_oneOf _).agree.bind
  intro point
  exact (advances_someRun _).weak.map

theorem advances_exponent : Advances exponent := by
  apply advances_of_agree
  intro m
  apply (advances_oneOf _).agree.bind
  intro mark
  apply (advances_oneOf _).optional.bind
  intro sign?
  exact (advances_someRun _).weak.map

theorem advances_number : Advances number := by
  apply advances_of_agree
  intro m
  apply (advances_someRun _).agree.bind
  intro whole
  apply advances_fraction.optional.bind
  intro part?
  exact advances_exponent.optional.map

/-! ## Rounds of a gap -/

theorem afterGap_dropWhile (s : List Char) :
    afterGap false s = afterGap false (s.dropWhile isGapChar) := by
  induction s with
  | nil => rfl
  | cons c s ih =>
    by_cases hBlank : isGapChar c = true
    · rw [List.dropWhile_cons_of_pos hBlank, ← ih, afterGap, if_neg Bool.false_ne_true,
        if_pos hBlank]
    · rw [List.dropWhile_cons_of_neg hBlank]

theorem afterGap_open (s : List Char) :
    afterGap true s = afterGap false (s.dropWhile (· != '\n')) := by
  induction s with
  | nil => rfl
  | cons c s ih =>
    by_cases hEnd : c = '\n'
    · subst hEnd
      rfl
    · have hOpen : (c != '\n') = true := bne_iff_ne.mpr hEnd
      have hDrop : (c :: s).dropWhile (· != '\n') = s.dropWhile (· != '\n') :=
        List.dropWhile_cons_of_pos hOpen
      rw [hDrop, ← ih, afterGap, if_pos rfl, hOpen]

/-- A round takes the blanks and, if one begins behind them, a comment. -/
theorem gap_of_comment {comment : List Char} (h : s.dropWhile isGapChar = '#' :: comment) :
    gap s = gap (comment.dropWhile (· != '\n')) ∧
      (comment.dropWhile (· != '\n')).length < s.length := by
  constructor
  · have hOpen : afterGap false ('#' :: comment) = afterGap true comment := rfl
    rw [gap, gap, afterGap_dropWhile s, h, hOpen, afterGap_open]
  · have hBlanks := (List.dropWhile_suffix (l := s) isGapChar).length_le
    have hComment := (List.dropWhile_suffix (l := comment) (· != '\n')).length_le
    rw [h, List.length_cons] at hBlanks
    exact Nat.lt_of_le_of_lt hComment hBlanks

theorem gap_of_no_comment (h : ∀ comment, s.dropWhile isGapChar ≠ '#' :: comment) :
    gap s = .accept () (s.dropWhile isGapChar) := by
  have hStops : Stops isGapChar (s.dropWhile isGapChar) :=
    (takeWhile_dropWhile_iff.mp ⟨rfl, rfl⟩).2.2
  rw [gap, afterGap_dropWhile]
  cases hRest : s.dropWhile isGapChar with
  | nil => rfl
  | cons c rest =>
    rw [hRest] at hStops h
    rw [afterGap_cons (stops_cons_iff.mp hStops)]
    rintro rfl
    exact h rest rfl

end TopicSpec.Scan
