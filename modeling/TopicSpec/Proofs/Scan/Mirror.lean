import Mathlib.Data.List.Forall2
import TopicSpec.Proofs.Scan.Lexeme

/-! # Two runs side by side

A scanner runs on one text, and the same scanner or one like it on another. The runs keep in step:
both accept the same value, or both reject. They may part only where the first text has come to its
end and the second has one more mark there, which closes something in the second run and is missed
in the first. -/

namespace TopicSpec
set_option autoImplicit false

/-- Nothing follows that could still be read. -/
def Outcome.IsOver {α : Type} : Outcome α → Prop
  | .accept _ rest => rest = []
  | .reject committed _ _ => committed = true

namespace Scan

variable {α β σ : Type} {lost : Prop} {P P' Q' : List Char → List Char → Prop}
  {Q R : α → List Char → List Char → Prop}

/-- The outcomes of two runs. With `lost`, the second run may have gone to the end of its text
where the first had to give up for good. -/
inductive Mirrored (lost : Prop) (Q : α → List Char → List Char → Prop) :
    Outcome α → Outcome α → Prop where
  | accept {a : α} {r r' : List Char} : Q a r r' → Mirrored lost Q (.accept a r) (.accept a r')
  | reject {committed : Bool} {expected expected' : List Expectation} {r r' : List Char} :
    Mirrored lost Q (.reject committed expected r) (.reject committed expected' r')
  | ended {expected : List Expectation} {r : List Char} {o : Outcome α} : lost → o.IsOver →
    Mirrored lost Q (.reject true expected r) o

/-- From texts in the relation `P`, the runs end alike, and in the relation `Q` if they accept. -/
def Mirrors (lost : Prop) (P : List Char → List Char → Prop)
    (Q : α → List Char → List Char → Prop) (p p' : Scan α) : Prop :=
  ∀ s s', P s s' → Mirrored lost Q (p s) (p' s')

theorem Mirrored.imp {o o' : Outcome α} (h : Mirrored lost Q o o')
    (hQ : ∀ a r r', Q a r r' → R a r r') : Mirrored lost R o o' := by
  cases h with
  | accept hAccept => exact .accept (hQ _ _ _ hAccept)
  | reject => exact .reject
  | ended hLost hOver => exact .ended hLost hOver

theorem Mirrored.lose {o o' : Outcome α} (h : Mirrored False Q o o') : Mirrored lost Q o o' := by
  cases h with
  | accept hAccept => exact .accept hAccept
  | reject => exact .reject
  | ended hLost => exact absurd hLost id

theorem isOver_bind {p : Scan α} {f : α → Scan β} {s : List Char} (hp : (p s).IsOver)
    (hf : ∀ a, (f a []).IsOver) : ((p >>= f) s).IsOver := by
  rw [bind_apply]
  cases hRun : p s with
  | accept a rest =>
    rw [hRun] at hp
    obtain rfl : rest = [] := hp
    exact hf a
  | reject committed expected rest =>
    rw [hRun] at hp
    exact hp

namespace Mirrors

variable {p p' q q' : Scan α}

theorem imp (h : Mirrors lost P Q p p') (hP : ∀ s s', P' s s' → P s s')
    (hQ : ∀ a r r', Q a r r' → R a r r') : Mirrors lost P' R p p' :=
  fun s s' hs => (h s s' (hP s s' hs)).imp hQ

theorem lose (h : Mirrors False P Q p p') : Mirrors lost P Q p p' := fun s s' hs => (h s s' hs).lose

/-! ## Combinators -/

theorem pure {a : α} (h : ∀ s s', P s s' → Q a s s') :
    Mirrors lost P Q (pure a : Scan α) (Pure.pure a) :=
  fun s s' hs => .accept (h s s' hs)

/-- Once the first scanner has lost the second run, the rest of that run has to come to its end. -/
theorem bind {Q : α → List Char → List Char → Prop} {R : β → List Char → List Char → Prop}
    {f f' : α → Scan β} (hp : Mirrors lost P Q p p') (hEnd : lost → ∀ a, (f' a []).IsOver)
    (hf : ∀ a, Mirrors lost (Q a) R (f a) (f' a)) : Mirrors lost P R (p >>= f) (p' >>= f') := by
  intro s s' hs
  have hFirst := hp s s' hs
  have hOverBind := isOver_bind (p := p') (f := f') (s := s')
  rw [bind_apply] at hOverBind ⊢
  rw [bind_apply]
  generalize p s = o at hFirst
  generalize p' s' = o' at hFirst hOverBind
  cases hFirst with
  | accept hAccept => exact hf _ _ _ hAccept
  | reject => exact .reject
  | ended hLost hOver => exact .ended hLost (hOverBind hOver (hEnd hLost))

/-- A scanner that loses nothing can be followed by any other. -/
theorem andThen {Q : α → List Char → List Char → Prop} {R : β → List Char → List Char → Prop}
    {f f' : α → Scan β} (hp : Mirrors False P Q p p')
    (hf : ∀ a, Mirrors lost (Q a) R (f a) (f' a)) : Mirrors lost P R (p >>= f) (p' >>= f') := by
  intro s s' hs
  have hFirst := hp s s' hs
  rw [bind_apply, bind_apply]
  generalize p s = o at hFirst
  generalize p' s' = o' at hFirst
  cases hFirst with
  | accept hAccept => exact hf _ _ _ hAccept
  | reject => exact .reject
  | ended hLost => exact absurd hLost id

theorem map {Q : List Char → List Char → Prop} {f : α → β}
    (h : Mirrors lost P (fun _ => Q) p p') :
    Mirrors lost P (fun _ => Q) (p >>= fun a => Pure.pure (f a))
      (p' >>= fun a => Pure.pure (f a)) :=
  h.bind (fun _ _ => rfl) fun _ => Mirrors.pure fun _ _ hs => hs

theorem commit (h : Mirrors lost P Q p p') : Mirrors lost P Q (commit p) (Scan.commit p') := by
  intro s s' hs
  have hRun := h s s' hs
  unfold Scan.commit
  generalize p s = o at hRun
  generalize p' s' = o' at hRun
  cases hRun with
  | accept hAccept => exact .accept hAccept
  | reject => exact .reject
  | ended hLost hOver =>
    refine .ended hLost ?_
    cases o' with
    | accept a rest => exact hOver
    | reject committed expected rest => rfl

theorem expecting {e e' : Expectation} (h : Mirrors lost P Q p p') :
    Mirrors lost P Q (expecting e p) (Scan.expecting e' p') := by
  intro s s' hs
  have hRun := h s s' hs
  unfold Scan.expecting
  generalize p s = o at hRun
  generalize p' s' = o' at hRun
  cases hRun with
  | accept hAccept => exact .accept hAccept
  | reject => exact .reject
  | ended hLost hOver =>
    refine .ended hLost ?_
    cases o' with
    | accept a rest => exact hOver
    | reject committed expected rest => exact hOver

theorem require {e e' : Expectation} (h : Mirrors lost P Q p p') :
    Mirrors lost P Q (require e p) (Scan.require e' p') :=
  h.commit.expecting

theorem orElse (hp : Mirrors lost P Q p p') (hq : Mirrors lost P Q q q') :
    Mirrors lost P Q (orElse p q) (Scan.orElse p' q') := by
  intro s s' hs
  have hRun := hp s s' hs
  unfold Scan.orElse
  generalize p s = o at hRun
  generalize p' s' = o' at hRun
  cases hRun with
  | accept hAccept => exact .accept hAccept
  | @reject committed =>
    cases committed with
    | true => exact .reject
    | false => exact hq s s' hs
  | ended hLost hOver =>
    refine .ended hLost ?_
    cases o' with
    | accept a rest => exact hOver
    | reject committed expected rest =>
      obtain rfl : committed = true := hOver
      rfl

theorem firstOf {more more' : List (Scan α)} (hp : Mirrors lost P Q p p')
    (hMore : List.Forall₂ (Mirrors lost P Q) more more') :
    Mirrors lost P Q (firstOf p more) (Scan.firstOf p' more') := by
  induction hMore generalizing p p' with
  | nil => exact hp
  | cons hNext _ ih => exact hp.orElse (ih hNext)

theorem optional {R : Option α → List Char → List Char → Prop} (hp : Mirrors lost P Q p p')
    (hNone : ∀ s s', P s s' → R none s s') (hSome : ∀ a r r', Q a r r' → R (some a) r r') :
    Mirrors lost P R (optional p) (Scan.optional p') := by
  intro s s' hs
  have hRun := hp s s' hs
  unfold Scan.optional
  generalize p s = o at hRun
  generalize p' s' = o' at hRun
  cases hRun with
  | accept hAccept => exact .accept (hSome _ _ _ hAccept)
  | @reject committed =>
    cases committed with
    | true => exact .reject
    | false => exact .accept (hNone s s' hs)
  | ended hLost hOver =>
    refine .ended hLost ?_
    cases o' with
    | accept a rest => exact hOver
    | reject committed expected rest =>
      obtain rfl : committed = true := hOver
      rfl

theorem peek {test : List Char → Bool} (hTest : ∀ s s', P s s' → test s = test s') :
    Mirrors lost P (fun _ => P) (peek test) (Scan.peek test) := by
  intro s s' hs
  unfold Scan.peek
  rw [hTest s s' hs]
  exact .accept hs

end Mirrors

/-! ## Texts that scanners take alike -/

/-- A character that begins neither a gap nor a quotation. -/
def IsPlain (c : Char) : Prop := isGapChar c = false ∧ c ≠ '#' ∧ c ≠ '"'

instance : DecidablePred IsPlain := fun c =>
  inferInstanceAs (Decidable (isGapChar c = false ∧ c ≠ '#' ∧ c ≠ '"'))

/-- A gap begins the text, or it is empty. -/
def IsBare (s : List Char) : Prop := ∀ c ∈ s.head?, ¬IsPlain c ∧ c ≠ '"'

/-- What two texts may begin with. -/
inductive Front (like : List Char → List Char → Prop) (closer : Option Char) :
    List Char → List Char → Prop where
  | plain {c : Char} {s s' : List Char} : IsPlain c → like s s' →
    Front like closer (c :: s) (c :: s')
  | quotation {text s s' : List Char} : '"' ∉ text → like s s' →
    Front like closer ('"' :: text ++ '"' :: s) ('"' :: text ++ '"' :: s')
  | openQuotation {text text' : List Char} : '"' ∉ text → '"' ∉ text' →
    Front like closer ('"' :: text) ('"' :: text')
  | bare {s s' : List Char} : IsBare s → IsBare s' → Front like closer s s'
  | closed {c : Char} : closer = some c → Front like closer [] [c]

/-- A relation of texts that have the same tokens up to the end of the first, with the mark that
the second may have there. -/
structure Likeness where
  like : List Char → List Char → Prop
  closer : Option Char
  closes : ∀ {c}, closer = some c → c = '\x7d' ∨ c = ')'
  front : ∀ {s s'}, like s s' → Front like closer s s'
  gap : ∀ {s s'}, like s s' → like (afterGap false s) (afterGap false s')

/-- Plain characters other than the marks that a likeness may close with. -/
def isOrdinary (c : Char) : Bool :=
  !(['"', '#', ' ', '\t', '\r', '\n', '\x7d', ')'].contains c)

theorem isPlain_of_isOrdinary {c : Char} (h : isOrdinary c = true) : IsPlain c := by
  simp only [isOrdinary, List.contains_eq_mem, Bool.not_eq_true', decide_eq_false_iff_not,
    List.mem_cons, not_or] at h
  simp [IsPlain, isGapChar, h]

theorem isOrdinary_of_isWordChar {c : Char} (h : isWordChar c = true) : isOrdinary c = true := by
  by_contra hOther
  have hMark : c ∈ ['"', '#', ' ', '\t', '\r', '\n', '\x7d', ')'] := by
    simpa only [isOrdinary, List.contains_eq_mem, Bool.not_eq_true', decide_eq_false_iff_not,
      not_not] using hOther
  have hNoWord : ['"', '#', ' ', '\t', '\r', '\n', '\x7d', ')'].any isWordChar = false := rfl
  exact List.any_eq_false.mp hNoWord c hMark h

namespace Likeness

variable {L : Likeness} {s s' : List Char} {accepts : Char → Bool}

/-- The second text has a mark for which the first may have no counterpart. -/
def Closes (L : Likeness) : Prop := L.closer.isSome = true

/-- The texts begin with the same character, or no ordinary one stands at the front of either. -/
theorem ordinary_front (h : L.like s s') :
    (∃ c r r', s = c :: r ∧ s' = c :: r' ∧ L.like r r') ∨
      Stops isOrdinary s ∧ Stops isOrdinary s' := by
  have hBare : ∀ t, IsBare t → Stops isOrdinary t := by
    intro t hBare c hc
    by_contra hOrdinary
    exact (hBare c hc).1 (isPlain_of_isOrdinary (by simpa using hOrdinary))
  generalize hLike : L.like = like at h
  generalize hCloser : L.closer = closer
  have hFront : Front like closer s s' := by
    subst hLike hCloser
    exact L.front h
  cases hFront with
  | @plain c r r' hPlain hTail => exact .inl ⟨c, r, r', rfl, rfl, hTail⟩
  | quotation => exact .inr ⟨stops_cons_iff.mpr rfl, stops_cons_iff.mpr rfl⟩
  | openQuotation => exact .inr ⟨stops_cons_iff.mpr rfl, stops_cons_iff.mpr rfl⟩
  | bare hs hs' => exact .inr ⟨hBare _ hs, hBare _ hs'⟩
  | closed hClosed =>
    refine .inr ⟨stops_nil _, stops_cons_iff.mpr ?_⟩
    rcases L.closes (hCloser.trans hClosed) with rfl | rfl <;> rfl

theorem stops_of_ordinary (hClass : ∀ c, accepts c = true → isOrdinary c = true)
    (h : Stops isOrdinary s) : Stops accepts s := by
  intro c hc
  by_contra hAccepts
  have hOrdinary := hClass c (by simpa using hAccepts)
  simp [h c hc] at hOrdinary

theorem stops_iff (hClass : ∀ c, accepts c = true → isOrdinary c = true) (h : L.like s s') :
    Stops accepts s ↔ Stops accepts s' := by
  rcases ordinary_front h with ⟨c, r, r', rfl, rfl, -⟩ | ⟨hs, hs'⟩
  · rw [stops_cons_iff, stops_cons_iff]
  · exact iff_of_true (stops_of_ordinary hClass hs) (stops_of_ordinary hClass hs')

/-- The same run of ordinary characters stands at the front of both texts. -/
theorem runs_eq (hClass : ∀ c, accepts c = true → isOrdinary c = true) (h : L.like s s') :
    s.takeWhile accepts = s'.takeWhile accepts ∧
      L.like (s.dropWhile accepts) (s'.dropWhile accepts) := by
  have hStops : ∀ t, Stops accepts t → t.takeWhile accepts = [] ∧ t.dropWhile accepts = t :=
    fun t ht => takeWhile_dropWhile_iff.mpr ⟨rfl, nofun, ht⟩
  induction s generalizing s' with
  | nil =>
    rcases ordinary_front h with ⟨c, r, r', hNil, -⟩ | ⟨hs, hs'⟩
    · cases hNil
    · obtain ⟨hTake, hDrop⟩ := hStops _ (stops_of_ordinary hClass hs')
      rw [hTake, hDrop]
      exact ⟨rfl, h⟩
  | cons c s ih =>
    rcases ordinary_front h with ⟨d, r, r', hEq, rfl, hTail⟩ | ⟨hs, hs'⟩
    · obtain ⟨rfl, rfl⟩ := List.cons.inj hEq
      by_cases hAccepts : accepts c = true
      · simp only [List.takeWhile_cons, List.dropWhile_cons, hAccepts, if_true, List.cons.injEq,
          true_and]
        exact ih hTail
      · simpa [List.takeWhile_cons, List.dropWhile_cons, hAccepts] using h
    · obtain ⟨hTake, hDrop⟩ := hStops _ (stops_of_ordinary hClass hs)
      obtain ⟨hTake', hDrop'⟩ := hStops _ (stops_of_ordinary hClass hs')
      rw [hTake, hDrop, hTake', hDrop']
      exact ⟨rfl, h⟩

/-- A word of ordinary characters stands at the front of both texts or of neither. -/
theorem dropWord_cases {word : List Char} (hWord : word.all isOrdinary = true) (h : L.like s s') :
    (∃ r r', dropWord word s = some r ∧ dropWord word s' = some r' ∧ L.like r r') ∨
      dropWord word s = none ∧ dropWord word s' = none := by
  have hNone : ∀ {c word t}, isOrdinary c = true → Stops isOrdinary t →
      dropWord (c :: word) t = none := by
    intro c word t hc ht
    rw [Option.eq_none_iff_forall_ne_some]
    intro r hr
    rw [dropWord_eq_some_iff.mp hr, List.cons_append, stops_cons_iff, hc] at ht
    cases ht
  induction word generalizing s s' with
  | nil => exact .inl ⟨s, s', rfl, rfl, h⟩
  | cons c word ih =>
    obtain ⟨hc, hWord⟩ := Bool.and_eq_true_iff.mp hWord
    rcases ordinary_front h with ⟨d, r, r', rfl, rfl, hTail⟩ | ⟨hs, hs'⟩
    · by_cases hEq : c = d
      · simp only [dropWord, hEq, if_true]
        exact ih hWord hTail
      · simp only [dropWord, hEq, if_false, and_self]
        exact .inr trivial
    · exact .inr ⟨hNone hc hs, hNone hc hs'⟩

/-- The texts are alike and within the bounds. -/
structure Near (L : Likeness) (m m' : Nat) (s s' : List Char) : Prop where
  like : L.like s s'
  left : s.length < m
  right : s'.length < m'

theorem Near.mono {m m' n n' : Nat} (h : L.Near m m' s s') (hm : m ≤ n) (hm' : m' ≤ n') :
    L.Near n n' s s' :=
  ⟨h.like, Nat.lt_of_lt_of_le h.left hm, Nat.lt_of_lt_of_le h.right hm'⟩

/-- A round of a loop either ends it or reads a character. -/
def Advance (L : Likeness) (m m' : Nat) {α : Type} : Option α → List Char → List Char → Prop
  | none => L.Near (m + 1) (m' + 1)
  | some _ => L.Near m m'

/-! ## Loops -/

section
variable {α σ : Type} {closing : Prop} {k k' : Nat}

theorem isOver_repeatWithin {step : σ → Scan (Option σ)}
    (hEnd : ∀ state, step state [] = .accept none []) (n : Nat) (state : σ) :
    (repeatWithin step n state []).IsOver := by
  cases n with
  | zero => rfl
  | succ n =>
    rw [repeatWithin, bind_apply, hEnd]
    rfl

theorem isOver_manyWithin {step : Scan (Option α)} (hEnd : step [] = .accept none []) (n : Nat) :
    (manyWithin step n []).IsOver := by
  cases n with
  | zero => rfl
  | succ n =>
    rw [manyWithin, bind_apply, hEnd]
    rfl

/-- Each run has a bound of its own, which exceeds the text that is left to it. -/
theorem mirrors_repeatWithin {step step' : σ → Scan (Option σ)}
    (hStep : ∀ m < k, ∀ m' < k', ∀ state,
      Mirrors closing (L.Near (m + 1) (m' + 1)) (L.Advance m m') (step state) (step' state))
    (hEnd : closing → ∀ state, step' state [] = .accept none []) {m m' : Nat} (hm : m ≤ k)
    (hm' : m' ≤ k') (state : σ) :
    Mirrors closing (L.Near m m') (fun _ => L.Near k k') (repeatWithin step m state)
      (repeatWithin step' m' state) := by
  induction m generalizing m' state with
  | zero => exact fun s s' hs => absurd hs.left (Nat.not_lt_zero _)
  | succ m ih =>
    cases m' with
    | zero => exact fun s s' hs => absurd hs.right (Nat.not_lt_zero _)
    | succ m' =>
      apply (hStep m hm m' hm' state).bind
      · intro hClosing next?
        cases next? with
        | none => rfl
        | some next => exact isOver_repeatWithin (hEnd hClosing) m' next
      · intro next?
        cases next? with
        | none => exact Mirrors.pure fun s s' hs => hs.mono hm hm'
        | some next => exact ih (Nat.le_of_lt hm) (Nat.le_of_lt hm') next

theorem mirrors_repeated {step step' : σ → Scan (Option σ)}
    (hStep : ∀ m < k, ∀ m' < k', ∀ state,
      Mirrors closing (L.Near (m + 1) (m' + 1)) (L.Advance m m') (step state) (step' state))
    (hEnd : closing → ∀ state, step' state [] = .accept none []) (state : σ) :
    Mirrors closing (L.Near k k') (fun _ => L.Near k k') (repeated step state)
      (repeated step' state) := by
  intro s s' hs
  exact mirrors_repeatWithin hStep hEnd hs.left hs.right state s s'
    ⟨hs.like, Nat.lt_succ_self _, Nat.lt_succ_self _⟩

theorem mirrors_manyWithin {step step' : Scan (Option α)}
    (hStep : ∀ m < k, ∀ m' < k',
      Mirrors closing (L.Near (m + 1) (m' + 1)) (L.Advance m m') step step')
    (hEnd : closing → step' [] = .accept none []) {m m' : Nat} (hm : m ≤ k) (hm' : m' ≤ k') :
    Mirrors closing (L.Near m m') (fun _ => L.Near k k') (manyWithin step m)
      (manyWithin step' m') := by
  induction m generalizing m' with
  | zero => exact fun s s' hs => absurd hs.left (Nat.not_lt_zero _)
  | succ m ih =>
    cases m' with
    | zero => exact fun s s' hs => absurd hs.right (Nat.not_lt_zero _)
    | succ m' =>
      apply (hStep m hm m' hm').bind
      · intro hClosing a?
        cases a? with
        | none => rfl
        | some a =>
          apply isOver_bind (isOver_manyWithin (hEnd hClosing) m')
          exact fun _ => rfl
      · intro a?
        cases a? with
        | none => exact Mirrors.pure fun s s' hs => hs.mono hm hm'
        | some a =>
          apply (ih (Nat.le_of_lt hm) (Nat.le_of_lt hm')).bind
          · exact fun _ _ => rfl
          · exact fun values => Mirrors.pure fun _ _ hs => hs

theorem mirrors_many {step step' : Scan (Option α)}
    (hStep : ∀ m < k, ∀ m' < k',
      Mirrors closing (L.Near (m + 1) (m' + 1)) (L.Advance m m') step step')
    (hEnd : closing → step' [] = .accept none []) :
    Mirrors closing (L.Near k k') (fun _ => L.Near k k') (many step) (many step') := by
  intro s s' hs
  exact mirrors_manyWithin hStep hEnd hs.left hs.right s s'
    ⟨hs.like, Nat.lt_succ_self _, Nat.lt_succ_self _⟩

end

end Likeness
end Scan
end TopicSpec
