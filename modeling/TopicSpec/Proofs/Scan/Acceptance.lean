import TopicSpec.Scan.Lexeme

/-! # What scanners accept

Each combinator accepts exactly if its parts do. A reading of a production is taken apart with
these statements, from the outermost combinator inwards. -/

namespace TopicSpec.Scan
set_option autoImplicit false

variable {α β σ : Type} {s t : List Char}

theorem pure_eq_accept_iff {a b : α} :
    (pure a : Scan α) s = .accept b t ↔ a = b ∧ s = t := by
  rw [pure_apply]
  simp

theorem bind_eq_accept_iff {p : Scan α} {f : α → Scan β} {b : β} :
    (p >>= f) s = .accept b t ↔ ∃ a m, p s = .accept a m ∧ f a m = .accept b t := by
  rw [bind_apply]
  cases p s <;> simp [and_assoc]

theorem accept_of_map {p : Scan α} {f : α → β} {b : β}
    (h : (p >>= fun a => pure (f a)) s = .accept b t) : ∃ a, f a = b ∧ p s = .accept a t := by
  obtain ⟨a, m, hAccept, hPure⟩ := bind_eq_accept_iff.mp h
  obtain ⟨hValue, rfl⟩ := pure_eq_accept_iff.mp hPure
  exact ⟨a, hValue, hAccept⟩

theorem fail_ne_accept {a : α} : (fail : Scan α) s ≠ .accept a t := by simp [fail]

theorem commit_eq_accept_iff {p : Scan α} {a : α} :
    commit p s = .accept a t ↔ p s = .accept a t := by
  unfold commit
  cases p s <;> simp

theorem expecting_eq_accept_iff {e : Expectation} {p : Scan α} {a : α} :
    expecting e p s = .accept a t ↔ p s = .accept a t := by
  unfold expecting
  cases p s <;> simp

theorem require_eq_accept_iff {e : Expectation} {p : Scan α} {a : α} :
    require e p s = .accept a t ↔ p s = .accept a t := by
  rw [require, expecting_eq_accept_iff, commit_eq_accept_iff]

theorem accept_of_orElse {p q : Scan α} {a : α} (h : orElse p q s = .accept a t) :
    p s = .accept a t ∨ q s = .accept a t := by
  unfold orElse at h
  split at h
  · exact .inl (by rwa [‹p s = _›])
  · cases h
  · exact .inr h

theorem accept_of_firstOf {p : Scan α} {more : List (Scan α)} {a : α}
    (h : firstOf p more s = .accept a t) : ∃ q ∈ p :: more, q s = .accept a t := by
  induction more generalizing p with
  | nil => exact ⟨p, List.mem_cons_self, h⟩
  | cons next more ih =>
    rcases accept_of_orElse h with hp | hMore
    · exact ⟨p, List.mem_cons_self, hp⟩
    · obtain ⟨q, hq, hAccept⟩ := ih hMore
      exact ⟨q, List.mem_cons_of_mem _ hq, hAccept⟩

theorem optional_eq_accept_some_iff {p : Scan α} {a : α} :
    optional p s = .accept (some a) t ↔ p s = .accept a t := by
  unfold optional
  split <;> simp_all

theorem rest_of_optional_none {p : Scan α} (h : optional p s = .accept none t) : t = s := by
  unfold optional at h
  split at h <;> simp_all

/-- What stands before the text that is left, if the scanner answered a value at all. -/
theorem accept_of_optional {p : Scan α} {a? : Option α} (h : optional p s = .accept a? t) :
    (a? = none ∧ t = s) ∨ ∃ a, a? = some a ∧ p s = .accept a t := by
  cases a? with
  | none => exact .inl ⟨rfl, rest_of_optional_none h⟩
  | some a => exact .inr ⟨a, rfl, optional_eq_accept_some_iff.mp h⟩

theorem literal_eq_accept_iff {word : String} {u : Unit} :
    literal word s = .accept u t ↔ s = word.toList ++ t := by
  unfold literal
  rw [← dropWord_eq_some_iff]
  cases dropWord word.toList s <;> simp

theorem oneOf_eq_accept_iff {accepts : Char → Bool} {c : Char} :
    oneOf accepts s = .accept c t ↔ s = c :: t ∧ accepts c = true := by
  cases s with
  | nil => simp [oneOf]
  | cons d s =>
    by_cases hd : accepts d = true
    · simp only [oneOf, hd, if_true, Outcome.accept.injEq, List.cons.injEq]
      constructor
      · rintro ⟨rfl, rfl⟩
        exact ⟨⟨rfl, rfl⟩, hd⟩
      · rintro ⟨⟨rfl, rfl⟩, -⟩
        exact ⟨rfl, rfl⟩
    · simp only [oneOf, hd, if_false, reduceCtorEq, List.cons.injEq, false_iff, not_and]
      rintro ⟨rfl, -⟩
      exact hd

theorem accept_of_oneMark {mark word : String} {more : List String}
    (h : oneMark mark more s = .accept word t) : word ∈ mark :: more ∧ s = word.toList ++ t := by
  obtain ⟨q, hq, hAccept⟩ := accept_of_firstOf h
  obtain ⟨m, hm, rfl⟩ : ∃ m ∈ mark :: more, (literal m >>= fun _ => pure m) = q := by
    rcases List.mem_cons.mp hq with rfl | hq
    · exact ⟨mark, List.mem_cons_self, rfl⟩
    · obtain ⟨m, hm, rfl⟩ := List.mem_map.mp hq
      exact ⟨m, List.mem_cons_of_mem _ hm, rfl⟩
  obtain ⟨u, stop, hLiteral, hPure⟩ := bind_eq_accept_iff.mp hAccept
  obtain ⟨rfl, rfl⟩ := pure_eq_accept_iff.mp hPure
  exact ⟨hm, literal_eq_accept_iff.mp hLiteral⟩

/-! ## Loops -/

/-- What every round keeps holds of the state that a loop answers, and of the text at which its
last round began. That round either ended the loop or was beyond the bound. -/
theorem repeated_accept {step : σ → Scan (Option σ)} {state final : σ}
    (inv : σ → List Char → Prop) (hStart : inv state s)
    (hStep : ∀ a b m n, inv a m → step a m = .accept (some b) n → inv b n)
    (h : repeated step state s = .accept final t) :
    ∃ m, inv final m ∧ (step final m = .accept none t ∨ t = m) := by
  unfold repeated at h
  generalize s.length + 1 = bound at h
  induction bound generalizing state s with
  | zero =>
    obtain ⟨rfl, rfl⟩ := pure_eq_accept_iff.mp h
    exact ⟨s, hStart, .inr rfl⟩
  | succ bound ih =>
    obtain ⟨next?, m, hNext, hRest⟩ := bind_eq_accept_iff.mp h
    cases next? with
    | none =>
      obtain ⟨rfl, rfl⟩ := pure_eq_accept_iff.mp hRest
      exact ⟨s, hStart, .inl hNext⟩
    | some next => exact ih (hStep _ _ _ _ hStart hNext) hRest

/-- As for a loop with a state, where the state is the list of values so far. -/
theorem many_accept {step : Scan (Option α)} {values : List α}
    (inv : List α → List Char → Prop) (hStart : inv [] s)
    (hStep : ∀ before a m n, inv before m → step m = .accept (some a) n → inv (before ++ [a]) n)
    (h : many step s = .accept values t) :
    ∃ m, inv values m ∧ (step m = .accept none t ∨ t = m) := by
  unfold many at h
  generalize s.length + 1 = bound at h
  suffices general : ∀ before, inv before s →
      ∃ m, inv (before ++ values) m ∧ (step m = .accept none t ∨ t = m) from general [] hStart
  clear hStart
  induction bound generalizing s values with
  | zero =>
    intro before hBefore
    obtain ⟨rfl, rfl⟩ := pure_eq_accept_iff.mp h
    exact ⟨s, by simpa using hBefore, .inr rfl⟩
  | succ bound ih =>
    intro before hBefore
    obtain ⟨a?, m, hValue, hRest⟩ := bind_eq_accept_iff.mp h
    cases a? with
    | none =>
      obtain ⟨rfl, rfl⟩ := pure_eq_accept_iff.mp hRest
      exact ⟨s, by simpa using hBefore, .inl hValue⟩
    | some a =>
      obtain ⟨values, n, hMore, hPure⟩ := bind_eq_accept_iff.mp hRest
      obtain ⟨rfl, rfl⟩ := pure_eq_accept_iff.mp hPure
      have hAll := ih hMore (before ++ [a]) (hStep _ _ _ _ hBefore hValue)
      rwa [List.append_assoc, List.singleton_append] at hAll

end TopicSpec.Scan
