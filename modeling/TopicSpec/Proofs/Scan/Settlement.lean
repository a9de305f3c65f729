import TopicSpec.Proofs.Scan.Lexeme

/-! # Settled readings

A reading that never ends in a rejection that another alternative could take back: whether it
accepts or rejects for good is decided by one condition. Readings in sequence are settled by the
conjunction of their conditions. -/

namespace TopicSpec.Scan
set_option autoImplicit false

variable {α β σ : Type} {s t : List Char} {g g' : Prop} {P : α → List Char → Prop}
  {Q : β → List Char → Prop}

/-- The outcome is an acceptance if the condition holds, and a final rejection if not. -/
def Settles (condition : Prop) (accepted : α → List Char → Prop) : Outcome α → Prop
  | .accept a rest => condition ∧ accepted a rest
  | .reject true _ _ => ¬condition
  | .reject false _ _ => False

/-- The scanner rejects, and leaves it to other alternatives. -/
def Declines (p : Scan α) (s : List Char) : Prop :=
  ∃ expected rest, p s = .reject false expected rest

/-! ## Settling -/

theorem settles_of_accept {p : Scan α} {a : α} (h : p s = .accept a t) (hCondition : g)
    (hAccepted : P a t) : Settles g P (p s) := by
  rw [h]
  exact ⟨hCondition, hAccepted⟩

theorem accept_of_settles {o : Outcome α} (h : Settles g P o) (hCondition : g) :
    ∃ a rest, o = .accept a rest ∧ P a rest := by
  cases o with
  | accept a rest => exact ⟨a, rest, rfl, h.2⟩
  | reject committed expected rest =>
    cases committed with
    | true => exact absurd hCondition h
    | false => exact absurd h id

theorem Settles.imp {o : Outcome α} {P' : α → List Char → Prop} (h : Settles g P o)
    (hCondition : g ↔ g') (hAccepted : ∀ a rest, P a rest → P' a rest) : Settles g' P' o := by
  cases o with
  | accept a rest => exact ⟨hCondition.mp h.1, hAccepted a rest h.2⟩
  | reject committed expected rest =>
    cases committed with
    | false => exact h
    | true => exact fun hg => h (hCondition.mpr hg)

theorem settles_bind {p : Scan α} {f : α → Scan β} (h : Settles g P (p s))
    (hNext : ∀ a rest, P a rest → Settles g' Q (f a rest)) :
    Settles (g ∧ g') Q ((p >>= f) s) := by
  rw [bind_apply]
  cases hp : p s with
  | accept a rest =>
    rw [hp] at h
    exact (hNext a rest h.2).imp ⟨fun hg => ⟨h.1, hg⟩, And.right⟩ fun _ _ hQ => hQ
  | reject committed expected rest =>
    rw [hp] at h
    cases committed with
    | false => exact h
    | true => exact fun hg => h hg.1

theorem bind_of_accept {p : Scan α} {f : α → Scan β} {a : α} (h : p s = .accept a t) :
    (p >>= f) s = f a t := by rw [bind_apply, h]

theorem bind_assoc {γ : Type} (p : Scan α) (f : α → Scan β) (next : β → Scan γ)
    (s : List Char) : ((p >>= f) >>= next) s = (p >>= fun a => f a >>= next) s := by
  rw [bind_apply, bind_apply, bind_apply]
  cases p s with
  | accept a rest => rfl
  | reject committed expected rest => rfl

theorem settles_bind_of_accept {p : Scan α} {f : α → Scan β} {a : α} (h : p s = .accept a t)
    (hNext : Settles g Q (f a t)) : Settles g Q ((p >>= f) s) := by
  rw [bind_of_accept h]
  exact hNext

theorem settles_bind_pure {p : Scan α} {f : α → Scan β} (h : Settles g P (p s))
    (hNext : ∀ a rest, P a rest → ∃ b rest', f a rest = .accept b rest' ∧ Q b rest') :
    Settles g Q ((p >>= f) s) := by
  have hBind : Settles (g ∧ True) Q ((p >>= f) s) := by
    refine settles_bind h fun a rest hP => ?_
    obtain ⟨b, rest', hf, hQ⟩ := hNext a rest hP
    exact settles_of_accept hf trivial hQ
  exact hBind.imp ⟨And.left, fun hg => ⟨hg, trivial⟩⟩ fun _ _ hQ => hQ

theorem settles_commit {p : Scan α} (h : Settles g P (p s)) : Settles g P (commit p s) := by
  unfold commit
  cases hp : p s with
  | accept a rest =>
    rw [hp] at h
    exact h
  | reject committed expected rest =>
    rw [hp] at h
    cases committed with
    | false => exact absurd h id
    | true => exact h

theorem settles_expecting {e : Expectation} {p : Scan α} (h : Settles g P (p s)) :
    Settles g P (expecting e p s) := by
  unfold expecting
  cases hp : p s with
  | accept a rest =>
    rw [hp] at h
    exact h
  | reject committed expected rest =>
    rw [hp] at h
    cases committed with
    | false => exact h
    | true => exact h

theorem settles_require {e : Expectation} {p : Scan α} (h : Settles g P (p s)) :
    Settles g P (require e p s) :=
  settles_expecting (settles_commit h)

theorem require_of_declines {e : Expectation} {p : Scan α} (h : Declines p s) :
    ∃ expected rest, require e p s = .reject true expected rest := by
  obtain ⟨expected, rest, h⟩ := h
  exact ⟨expected ++ [e], rest, by rw [require, expecting, commit, h]⟩

theorem settles_orElse {p q : Scan α} (h : Settles g P (p s)) : Settles g P (orElse p q s) := by
  unfold orElse
  cases hp : p s with
  | accept a rest =>
    rw [hp] at h
    exact h
  | reject committed expected rest =>
    rw [hp] at h
    cases committed with
    | false => exact absurd h id
    | true => exact h

theorem orElse_of_declines {p q : Scan α} (h : Declines p s) : orElse p q s = q s := by
  obtain ⟨expected, rest, h⟩ := h
  rw [orElse, h]

theorem firstOf_of_declines {p q : Scan α} {more : List (Scan α)} (h : Declines p s) :
    firstOf p (q :: more) s = firstOf q more s := orElse_of_declines h

theorem expecting_congr {e : Expectation} {p q : Scan α} (h : p s = q s) :
    expecting e p s = expecting e q s := by rw [expecting, expecting, h]

theorem optional_of_declines {p : Scan α} (h : Declines p s) :
    optional p s = .accept none s := by
  obtain ⟨expected, rest, h⟩ := h
  rw [optional, h]

theorem settles_optional {p : Scan α} (h : Settles g P (p s)) :
    Settles g (fun a? rest => ∃ a, a? = some a ∧ P a rest) (optional p s) := by
  unfold optional
  cases hp : p s with
  | accept a rest =>
    rw [hp] at h
    exact ⟨h.1, a, rfl, h.2⟩
  | reject committed expected rest =>
    rw [hp] at h
    cases committed with
    | false => exact absurd h id
    | true => exact h

/-! ## Declining -/

theorem declines_bind {p : Scan α} {f : α → Scan β} (h : Declines p s) :
    Declines (p >>= f) s := by
  obtain ⟨expected, rest, h⟩ := h
  exact ⟨expected, rest, by rw [bind_apply, h]⟩

theorem declines_bind_of_accept {p : Scan α} {f : α → Scan β} {a : α} (h : p s = .accept a t)
    (hNext : Declines (f a) t) : Declines (p >>= f) s := by
  obtain ⟨expected, rest, hNext⟩ := hNext
  exact ⟨expected, rest, by rw [bind_of_accept h, hNext]⟩

theorem declines_orElse {p q : Scan α} (hp : Declines p s) (hq : Declines q s) :
    Declines (orElse p q) s := by
  obtain ⟨expected, rest, hq⟩ := hq
  exact ⟨expected, rest, by rw [orElse_of_declines hp, hq]⟩

theorem declines_firstOf {p : Scan α} {more : List (Scan α)}
    (h : ∀ q ∈ p :: more, Declines q s) : Declines (firstOf p more) s := by
  induction more generalizing p with
  | nil => exact h p List.mem_cons_self
  | cons q more ih =>
    have hMore := ih fun next hNext => h next (List.mem_cons_of_mem _ hNext)
    exact declines_orElse (h p List.mem_cons_self) hMore

/-- A fixed mark accepts or declines. -/
theorem literal_cases (word : String) (s : List Char) :
    (∃ t, literal word s = .accept () t) ∨ literal word s = .reject false [] s := by
  unfold literal
  cases dropWord word.toList s with
  | none => exact .inr rfl
  | some t => exact .inl ⟨t, rfl⟩

theorem declines_literal {word : String} (h : ∀ rest, s ≠ word.toList ++ rest) :
    Declines (literal word) s := by
  rcases literal_cases word s with ⟨t, hAccept⟩ | hReject
  · exact absurd (literal_eq_accept_iff.mp hAccept) (h t)
  · exact ⟨_, _, hReject⟩

theorem declines_literal_of_head {word : String} {c d : Char} {more : List Char}
    (hWord : word.toList = d :: more) (h : c ≠ d) : Declines (literal word) (c :: s) := by
  refine declines_literal fun rest hText => h ?_
  rw [hWord] at hText
  exact (List.cons.inj hText).1

theorem declines_someRun {accepts : Char → Bool} (h : Stops accepts s) :
    Declines (someRun accepts) s :=
  ⟨[], s, someRun_eq_reject h⟩

theorem declines_oneOf {accepts : Char → Bool} (h : Stops accepts s) :
    Declines (oneOf accepts) s := by
  cases s with
  | nil => exact ⟨_, _, rfl⟩
  | cons c s =>
    have hFirst : accepts c = false := stops_cons_iff.mp h
    exact ⟨[], c :: s, by simp [oneOf, hFirst]⟩

theorem stops_or_head (accepts : Char → Bool) (s : List Char) :
    Stops accepts s ∨ ∃ c r, s = c :: r ∧ accepts c = true := by
  cases s with
  | nil => exact .inl (stops_nil accepts)
  | cons c r =>
    cases hc : accepts c with
    | false => exact .inl (stops_cons_iff.mpr hc)
    | true => exact .inr ⟨c, r, rfl, hc⟩

theorem someRun_cases (accepts : Char → Bool) (s : List Char) :
    (∃ word t, someRun accepts s = .accept word t) ∨ someRun accepts s = .reject false [] s := by
  cases hWord : s.takeWhile accepts with
  | nil => exact .inr (by simp [someRun, hWord])
  | cons c word => exact .inl ⟨c :: word, s.dropWhile accepts, by simp [someRun, hWord]⟩

/-- A keyword accepts or declines. -/
theorem keyword_cases (word : String) (s : List Char) :
    (∃ t, keyword word s = .accept () t) ∨ keyword word s = .reject false [] s := by
  unfold keyword
  split
  · exact .inr rfl
  · exact .inl ⟨_, rfl⟩
  · split
    · exact .inr rfl
    · exact .inl ⟨_, rfl⟩

theorem declines_keyword {word : String} (h : ∀ rest, s = word.toList ++ rest → ¬StopsWord rest) :
    Declines (keyword word) s := by
  rcases keyword_cases word s with ⟨t, hAccept⟩ | hReject
  · obtain ⟨hText, hStops⟩ := keyword_eq_accept_iff.mp hAccept
    exact absurd hStops (h t hText)
  · exact ⟨_, _, hReject⟩

theorem declines_keyword_of_head {word : String} {c d : Char} {more : List Char}
    (hWord : word.toList = d :: more) (h : c ≠ d) : Declines (keyword word) (c :: s) := by
  refine declines_keyword fun rest hText => absurd ?_ h
  rw [hWord] at hText
  exact (List.cons.inj hText).1

theorem declines_oneKeyword {first : String} {more : List String}
    (h : ∀ word ∈ first :: more, Declines (keyword word) s) :
    Declines (oneKeyword first more) s := by
  refine declines_firstOf fun q hq => ?_
  rcases List.mem_cons.mp hq with rfl | hq
  · exact declines_bind (h first List.mem_cons_self)
  · obtain ⟨word, hWord, rfl⟩ := List.mem_map.mp hq
    exact declines_bind (h word (List.mem_cons_of_mem _ hWord))

/-- No two identifiers end at their own ends in one text. -/
theorem identifier_unique {word word' rest rest' : List Char} (h : IsIdentifier word)
    (h' : IsIdentifier word') (hStops : StopsWord rest) (hStops' : StopsWord rest')
    (hText : word ++ rest = word' ++ rest') : word = word' := by
  have hFirst := identifier_eq_accept_iff.mpr ⟨rfl, h, hStops⟩
  have hSecond := identifier_eq_accept_iff.mpr ⟨hText, h', hStops'⟩
  rw [hFirst] at hSecond
  exact (Outcome.accept.inj hSecond).1

theorem oneKeyword_append {word first : String} {more : List String}
    (hMem : word ∈ first :: more) (hWords : ∀ w ∈ first :: more, IsIdentifier w.toList)
    (hStops : StopsWord s) : oneKeyword first more (word.toList ++ s) = .accept word s := by
  induction more generalizing first with
  | nil =>
    obtain rfl := List.mem_singleton.mp hMem
    exact bind_eq_accept_iff.mpr ⟨(), s, keyword_eq_accept_iff.mpr ⟨rfl, hStops⟩, rfl⟩
  | cons next more ih =>
    by_cases hFirst : word = first
    · subst hFirst
      have hAccept : (keyword word >>= fun _ => pure word) (word.toList ++ s) = .accept word s :=
        bind_eq_accept_iff.mpr ⟨(), s, keyword_eq_accept_iff.mpr ⟨rfl, hStops⟩, rfl⟩
      show orElse _ _ _ = _
      rw [orElse, hAccept]
    · have hMore : word ∈ next :: more := (List.mem_cons.mp hMem).resolve_left hFirst
      have hDeclines : Declines (keyword first) (word.toList ++ s) := by
        refine declines_keyword fun rest hText hStops' => hFirst ?_
        exact String.toList_inj.mp (identifier_unique (hWords word hMem)
          (hWords first List.mem_cons_self) hStops hStops' hText)
      have hRest := ih hMore fun w hw => hWords w (List.mem_cons_of_mem _ hw)
      show orElse _ _ _ = _
      rw [orElse_of_declines (declines_bind hDeclines)]
      exact hRest

theorem isIdentifier_of_isReserved {word : List Char} (h : isReserved word = true) :
    IsIdentifier word := by
  have hWords : (reserved.all fun r =>
      r.toList.head?.any isWordStart && r.toList.tail.all isWordChar) = true := rfl
  obtain ⟨r, hr, hWord⟩ := List.any_eq_true.mp h
  obtain rfl : r.toList = word := by simpa using hWord
  have hFront := List.all_eq_true.mp hWords r hr
  cases hText : r.toList with
  | nil =>
    rw [hText] at hFront
    cases hFront
  | cons c more =>
    rw [hText, Bool.and_eq_true] at hFront
    exact ⟨c, more, rfl, hFront.1, List.all_eq_true.mp hFront.2⟩

/-- A reserved word is not at the front of a name. -/
theorem declines_keyword_of_name {word : String} {name rest : List Char} (hName : IsName name)
    (hStops : StopsWord rest) (hReserved : isReserved word.toList = true) :
    Declines (keyword word) (name ++ rest) := by
  refine declines_keyword fun rest' hText hStops' => ?_
  have hSame := identifier_unique hName.1 (isIdentifier_of_isReserved hReserved) hStops hStops'
    hText
  have hNotReserved := hName.2
  rw [hSame, hReserved] at hNotReserved
  cases hNotReserved

/-! ## Quoted texts -/

theorem declines_quoted (h : ∀ r, s ≠ '"' :: r) : Declines quoted s :=
  declines_bind (declines_literal h)

theorem quoted_of_open {text : List Char} (h : '"' ∉ text) :
    ∃ expected, quoted ('"' :: text) = .reject true expected [] := by
  have hOpen : literal "\"" ('"' :: text) = .accept () text := rfl
  have hRun : run (· != '"') text = .accept text [] := by
    refine run_eq_accept_iff.mpr ⟨(List.append_nil _).symm, ?_, stops_nil _⟩
    intro c hc
    simpa using fun hEq : c = '"' => h (hEq ▸ hc)
  refine ⟨[.closingQuote], ?_⟩
  rw [quoted, bind_apply, hOpen]
  show (run (· != '"') >>= _) text = _
  rw [bind_apply, hRun]
  rfl

/-! ## Deciding -/

/-- Whatever the scanner answers is final. -/
def Decides (p : Scan α) (s : List Char) : Prop := ¬Declines p s

theorem decides_of_accept {p : Scan α} {a : α} (h : p s = .accept a t) : Decides p s := by
  rintro ⟨expected, rest, hReject⟩
  rw [h] at hReject
  cases hReject

theorem decides_bind {p : Scan α} {f : α → Scan β} (hp : Decides p s)
    (hf : ∀ a t, p s = .accept a t → Decides (f a) t) : Decides (p >>= f) s := by
  rintro ⟨expected, rest, hReject⟩
  rw [bind_apply] at hReject
  cases hRun : p s with
  | accept a t =>
    rw [hRun] at hReject
    exact hf a t hRun ⟨expected, rest, hReject⟩
  | reject committed expected' rest' =>
    rw [hRun] at hReject
    cases hReject
    exact hp ⟨_, _, hRun⟩

theorem decides_commit (p : Scan α) (s : List Char) : Decides (commit p) s := by
  rintro ⟨expected, rest, hReject⟩
  unfold commit at hReject
  split at hReject <;> cases hReject

theorem decides_optional (p : Scan α) (s : List Char) : Decides (optional p) s := by
  rintro ⟨expected, rest, hReject⟩
  unfold optional at hReject
  split at hReject <;> cases hReject

theorem orElse_of_decides {p q : Scan α} (h : Decides p s) : orElse p q s = p s := by
  unfold orElse
  cases hRun : p s with
  | accept a t => rfl
  | reject committed expected rest =>
    cases committed with
    | true => rfl
    | false => exact absurd ⟨expected, rest, hRun⟩ h

/-! ## Loops -/

theorem repeatWithin_of_none {step : σ → Scan (Option σ)} {state : σ} (n : Nat)
    (h : step state s = .accept none t) : repeatWithin step (n + 1) state s = .accept state t := by
  rw [repeatWithin, bind_apply, h]
  rfl

theorem settles_repeatWithin {step : σ → Scan (Option σ)} {state : σ} {n : Nat}
    {P Q : σ → List Char → Prop}
    (h : Settles g (fun next? rest => ∃ next, next? = some next ∧ P next rest) (step state s))
    (hNext : ∀ next rest, P next rest → Settles g' Q (repeatWithin step n next rest)) :
    Settles (g ∧ g') Q (repeatWithin step (n + 1) state s) := by
  rw [repeatWithin]
  refine settles_bind h ?_
  rintro _ rest ⟨next, rfl, hP⟩
  exact hNext next rest hP

/-! ## Gaps -/

theorem gap_eq_accept (s : List Char) : gap s = .accept () (afterGap false s) := rfl

theorem afterGap_afterGap (comment : Bool) (s : List Char) :
    afterGap false (afterGap comment s) = afterGap comment s := by
  induction s generalizing comment with
  | nil => rfl
  | cons c s ih =>
    cases comment with
    | true => exact ih _
    | false =>
      by_cases hGap : isGapChar c = true
      · simpa [afterGap, hGap] using ih false
      · by_cases hComment : c = '#'
        · subst hComment
          exact ih true
        · simp [afterGap, hGap, hComment]

theorem afterGap_cons {c : Char} (hGap : isGapChar c = false) (hComment : c ≠ '#') :
    afterGap false (c :: s) = c :: s := by
  simp [afterGap, hGap, hComment]

theorem afterGap_of_class {accepts : Char → Bool} {c : Char} (h : accepts c = true)
    (hClass : [' ', '\t', '\r', '\n', '#'].any accepts = false) :
    afterGap false (c :: s) = c :: s := by
  have hne : c ∉ [' ', '\t', '\r', '\n', '#'] :=
    fun hMem => List.any_eq_false.mp hClass c hMem h
  simp only [List.mem_cons, List.not_mem_nil, or_false, not_or] at hne
  exact afterGap_cons (by simp [isGapChar, hne]) hne.2.2.2.2

end TopicSpec.Scan
