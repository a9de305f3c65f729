import TopicSpec.Proofs.Grammar.ConditionMirror
import TopicSpec.Proofs.Phrase.Unchecked

/-! # Layout

Two texts with the same tokens, and with gaps at the same places, have the same tree. What the gaps
are makes no difference: blanks, line ends, or comments with any text inside. -/

namespace TopicSpec
open Grammar Scan Scan.Likeness
set_option autoImplicit false

/-- The texts differ in nothing but what their gaps are. Quotations are kept, and a quotation that
is not closed goes on to the end of the text. -/
inductive Relaid : List Char → List Char → Prop where
  | nothing : Relaid [] []
  | kept {c : Char} {s s' : List Char} : IsPlain c → Relaid s s' → Relaid (c :: s) (c :: s')
  | quotation {text s s' : List Char} : '"' ∉ text → Relaid s s' →
    Relaid ('"' :: text ++ '"' :: s) ('"' :: text ++ '"' :: s')
  | openQuotation {text : List Char} : '"' ∉ text → Relaid ('"' :: text) ('"' :: text)
  | gap {s m s' m' : List Char} : Gap s m → s ≠ m → Gap s' m' → s' ≠ m' → Relaid m m' →
    Relaid s s'

namespace Scan

/-- A gap begins with a blank or with a comment. -/
theorem isBare_of_gap {s m : List Char} (h : Gap s m) (hSome : s ≠ m) : IsBare s := by
  cases h with
  | nothing => exact absurd rfl hSome
  | @blank c _ _ hBlank _ =>
    rintro d hd
    obtain rfl : c = d := by simpa using hd
    refine ⟨fun hPlain => ?_, ?_⟩
    · simp [hPlain.1] at hBlank
    · rintro rfl
      cases hBlank
  | comment =>
    rintro d hd
    obtain rfl : '#' = d := by simpa using hd
    exact ⟨fun hPlain => hPlain.2.1 rfl, by decide⟩
  | lastComment =>
    rintro d hd
    obtain rfl : '#' = d := by simpa using hd
    exact ⟨fun hPlain => hPlain.2.1 rfl, by decide⟩

end Scan

namespace Relaid

variable {s s' : List Char}

theorem front (h : Relaid s s') : Front Relaid none s s' := by
  cases h with
  | nothing => exact .bare nofun nofun
  | kept hPlain hTail => exact .plain hPlain hTail
  | quotation hText hTail => exact .quotation hText hTail
  | openQuotation hText => exact .openQuotation hText hText
  | gap hGap hSome hGap' hSome' _ =>
    exact .bare (isBare_of_gap hGap hSome) (isBare_of_gap hGap' hSome')

theorem afterGap (h : Relaid s s') : Relaid (afterGap false s) (Scan.afterGap false s') := by
  have hKeep : ∀ {c : Char} {t : List Char}, isGapChar c = false → c ≠ '#' →
      Scan.afterGap false (c :: t) = c :: t := by
    intro c t hBlank hComment
    simp [Scan.afterGap, hBlank, hComment]
  induction h with
  | nothing => exact .nothing
  | kept hPlain hTail _ =>
    rw [hKeep hPlain.1 hPlain.2.1, hKeep hPlain.1 hPlain.2.1]
    exact .kept hPlain hTail
  | quotation hText hTail _ =>
    rw [List.cons_append, List.cons_append, hKeep rfl (by decide), hKeep rfl (by decide)]
    exact .quotation hText hTail
  | openQuotation hText =>
    rw [hKeep rfl (by decide)]
    exact .openQuotation hText
  | gap hGap _ hGap' _ _ ih =>
    rw [afterGap_of_gap hGap, afterGap_of_gap hGap']
    exact ih

theorem append_plain {word : List Char} (hWord : ∀ c ∈ word, IsPlain c) (h : Relaid s s') :
    Relaid (word ++ s) (word ++ s') := by
  induction word with
  | nil => exact h
  | cons c word ih =>
    obtain ⟨hc, hMore⟩ := List.forall_mem_cons.mp hWord
    exact .kept hc (ih hMore)

/-- Every text is made of tokens, quotations and gaps. -/
theorem refl (s : List Char) : Relaid s s := by
  -- Quotations and comments take more than one character.
  induction hLength : s.length using Nat.strongRecOn generalizing s with
  | ind n ih =>
    have hShorter : ∀ t : List Char, t.length < s.length → Relaid t t := fun t ht =>
      ih t.length (hLength ▸ ht) t rfl
    cases s with
    | nil => exact .nothing
    | cons c s =>
      have hTail := hShorter s (Nat.lt_succ_self _)
      by_cases hBlank : isGapChar c = true
      · exact .gap (.blank hBlank (.nothing s)) (List.cons_ne_self c s)
          (.blank hBlank (.nothing s)) (List.cons_ne_self c s) hTail
      · by_cases hComment : c = '#'
        · subst hComment
          by_cases hLine : '\n' ∈ s
          · obtain ⟨text, rest, rfl, hText⟩ := List.eq_append_cons_of_mem hLine
            have hGap : Gap ('#' :: (text ++ '\n' :: rest)) rest := .comment hText (.nothing rest)
            have hLess : rest.length < ('#' :: (text ++ '\n' :: rest)).length := by
              simp only [List.length_cons, List.length_append]
              omega
            have hSome : '#' :: (text ++ '\n' :: rest) ≠ rest := fun hEq =>
              absurd (congrArg List.length hEq) (Nat.ne_of_gt hLess)
            exact .gap hGap hSome hGap hSome (hShorter rest hLess)
          · exact .gap (.lastComment hLine) (List.cons_ne_nil _ _) (.lastComment hLine)
              (List.cons_ne_nil _ _) .nothing
        · by_cases hQuote : c = '"'
          · subst hQuote
            by_cases hClosed : '"' ∈ s
            · obtain ⟨text, rest, rfl, hText⟩ := List.eq_append_cons_of_mem hClosed
              refine .quotation hText (hShorter rest ?_)
              simp only [List.length_cons, List.length_append]
              omega
            · exact .openQuotation hClosed
          · exact .kept ⟨by simpa using hBlank, hComment, hQuote⟩ hTail

theorem eq_nil_iff (h : Relaid s s') : s = [] ↔ s' = [] := by
  have hGapNil : ∀ {t m : List Char}, Gap t m → t ≠ m → t ≠ [] := by
    rintro t m hGap hSome rfl
    cases hGap
    exact hSome rfl
  cases h with
  | nothing => exact Iff.rfl
  | kept => simp
  | quotation => simp
  | openQuotation => simp
  | gap hGap hSome hGap' hSome' _ =>
    exact iff_of_false (hGapNil hGap hSome) (hGapNil hGap' hSome')

end Relaid

/-- No mark of a text is missing from the other. -/
def Likeness.relaid : Likeness where
  like := Relaid
  closer := none
  closes := nofun
  front := Relaid.front
  gap := Relaid.afterGap

namespace Grammar

/-- Relaid texts are taken alike, and are relaid again behind what has been read. -/
def Disregards {α : Type} (p : Scan α) : Prop :=
  ∀ m m', Mirrors False (Likeness.relaid.Near m m') (fun _ => Likeness.relaid.Near m m') p p

namespace Disregards

variable {α β : Type} {p q : Scan α}

theorem of_lexical (h : Likeness.relaid.Lexical p) : Disregards p := fun _ _ => h.weak

theorem of_mirrors
    (h : ∀ m m', Mirrors Likeness.relaid.Closes (Likeness.relaid.Near m m')
      (fun _ => Likeness.relaid.Near m m') p p) : Disregards p := by
  intro m m' s s' hs
  have hRun := h m m' s s' hs
  generalize p s = o at hRun ⊢
  generalize p s' = o' at hRun ⊢
  cases hRun with
  | accept hAccept => exact .accept hAccept
  | reject => exact .reject
  | ended hCloses => cases hCloses

theorem pure (a : α) : Disregards (Pure.pure a : Scan α) := fun _ _ => Mirrors.pure fun _ _ h => h

theorem bind {f : α → Scan β} (hp : Disregards p) (hf : ∀ a, Disregards (f a)) :
    Disregards (p >>= f) := fun m m' => (hp m m').andThen fun a => hf a m m'

theorem commit (h : Disregards p) : Disregards (commit p) := fun m m' => (h m m').commit

theorem require {e : Expectation} (h : Disregards p) : Disregards (require e p) := fun m m' =>
  (h m m').require

theorem optional (h : Disregards p) : Disregards (optional p) := fun m m' =>
  (h m m').optional (fun _ _ hs => hs) fun _ _ _ hr => hr

theorem firstOf {more : List (Scan α)} (h : Disregards p) (hMore : ∀ q ∈ more, Disregards q) :
    Disregards (firstOf p more) := fun m m' =>
  (h m m').firstOf (List.forall₂_same.mpr fun q hq => hMore q hq m m')

theorem gap : Disregards gap := fun _ _ => mirrors_gap

theorem thenGap {f : α → Scan β} (hp : Disregards p) (hf : ∀ a, Disregards (f a)) :
    Disregards (p >>= fun a => Scan.gap >>= fun _ => f a) := fun m m' =>
  (hp m m').andThenGap fun a => hf a m m'

theorem literal {word : String} (hWord : word.toList.all isOrdinary = true)
    (hNonempty : word.toList ≠ []) : Disregards (literal word) :=
  of_lexical (lexical_literal hWord hNonempty)

theorem keyword {word : String} (hWord : word.toList.all isOrdinary = true)
    (hNonempty : word.toList ≠ []) : Disregards (keyword word) :=
  of_lexical (lexical_keyword hWord hNonempty)

end Disregards

open Disregards

theorem disregards_topic : Disregards topic :=
  (of_lexical lexical_topicName).bind fun _ => .pure _

theorem disregards_guard : Disregards guard := by
  apply (literal rfl (by decide)).thenGap
  intro _
  apply (of_mirrors (mirrors_anyCondition _)).require.thenGap
  intro condition
  apply (of_mirrors fun _ _ => mirrors_closingMark (c := '\x7d') rfl (by decide)).bind
  exact fun _ => .pure _

theorem disregards_event : Disregards event := by
  have hAlias : Disregards aliasName := by
    apply gap.bind
    intro _
    apply (keyword rfl (by decide)).thenGap
    intro _
    apply (of_lexical lexical_identifier).require.bind
    exact fun _ => .pure _
  have hMessage : Disregards message := by
    apply disregards_topic.bind
    intro topic
    exact hAlias.optional.bind fun _ => .pure _
  have hGuard : Disregards eventGuard := gap.bind fun _ => disregards_guard
  apply hMessage.bind
  intro message
  exact hGuard.optional.bind fun _ => .pure _

theorem disregards_scope : Disregards scope := by
  have hDelimiter : ∀ {rule : Rule},
      Disregards (do let event ← Scan.commit event; return SyntaxTree.node rule [event]) :=
    disregards_event.commit.bind fun _ => .pure _
  apply Disregards.firstOf
  · exact (keyword rfl (by decide)).bind fun _ => .pure _
  · simp only [List.forall_mem_cons, List.not_mem_nil, false_implies, implies_true, and_true]
    constructor
    · apply (keyword rfl (by decide)).thenGap
      intro _
      apply hDelimiter.thenGap
      intro activator
      apply (keyword rfl (by decide)).optional.bind
      intro until?
      cases until? with
      | none => exact .pure _
      | some =>
        apply gap.bind
        intro _
        exact hDelimiter.bind fun _ => .pure _
    · apply (keyword rfl (by decide)).thenGap
      intro _
      exact hDelimiter.bind fun _ => .pure _

theorem disregards_bound : Disregards bound := by
  have hUnit : Disregards boundUnit := by
    have hOne : ∀ {word : String} {rule : Rule}, word.toList.all isOrdinary = true ∧
        word.toList ≠ [] → Disregards (oneKeyword word [] >>= fun unit => pure (rule, unit)) :=
      fun hWord => (of_lexical (lexical_oneKeyword (by simpa using hWord))).bind fun _ => .pure _
    apply (hOne (by decide)).firstOf
    simp only [List.forall_mem_cons, List.not_mem_nil, false_implies, implies_true, and_true]
    exact ⟨hOne (by decide), hOne (by decide)⟩
  apply gap.bind
  intro _
  apply (keyword rfl (by decide)).thenGap
  intro _
  apply (of_lexical lexical_number).require.thenGap
  intro amount
  exact hUnit.require.bind fun _ => .pure _

theorem disregards_pattern : Disregards pattern := by
  have hUnary : ∀ {word : String} {rule : Rule}, word.toList.all isOrdinary = true →
      word.toList ≠ [] → Disregards (unaryPattern word rule) := by
    intro word rule hWord hNonempty
    apply (keyword hWord hNonempty).thenGap
    intro _
    apply disregards_event.commit.bind
    intro behaviour
    exact disregards_bound.optional.bind fun _ => .pure _
  have hKeyword : Disregards patternKeyword := by
    apply ((keyword rfl (by decide)).bind fun _ => .pure _).firstOf
    simp only [List.forall_mem_cons, List.not_mem_nil, false_implies, implies_true, and_true]
    exact ⟨(keyword rfl (by decide)).bind fun _ => .pure _,
      (keyword rfl (by decide)).bind fun _ => .pure _⟩
  have hBinary : Disregards binaryPattern := by
    apply disregards_event.thenGap
    intro first
    apply hKeyword.require.thenGap
    intro rule
    apply disregards_event.commit.bind
    intro second
    exact disregards_bound.optional.bind fun _ => .pure _
  apply (hUnary rfl (by decide)).firstOf
  simp only [List.forall_mem_cons, List.not_mem_nil, false_implies, implies_true, and_true]
  exact ⟨hUnary rfl (by decide), hBinary⟩

theorem disregards_production (form : Form) : Disregards form.production := by
  cases form with
  | property =>
    apply gap.bind
    intro _
    apply disregards_scope.require.thenGap
    intro scope
    apply (literal rfl (by decide)).require.thenGap
    intro _
    exact disregards_pattern.require.thenGap fun _ => .pure _
  | assumption =>
    apply gap.bind
    intro _
    apply disregards_topic.require.thenGap
    intro topic
    exact disregards_guard.require.thenGap fun _ => .pure _
  | predicate =>
    apply gap.bind
    intro _
    exact (of_mirrors (mirrors_anyCondition _)).thenGap fun _ => .pure _

/-- Relaid texts have the same tree or none. -/
theorem whole_of_disregards {p : Scan SyntaxTree} (h : Disregards p) {s s' : List Char}
    (hLike : Relaid s s') : (p.whole s).toOption = (p.whole s').toOption := by
  have hRun := h (s.length + 1) (s'.length + 1) s s' ⟨hLike, Nat.lt_succ_self _, Nat.lt_succ_self _⟩
  unfold Scan.whole
  generalize p s = o at hRun
  generalize p s' = o' at hRun
  cases hRun with
  | @accept tree r r' hRest =>
    have hEnd := hRest.like.eq_nil_iff
    cases r with
    | nil =>
      obtain rfl := hEnd.mp rfl
      rfl
    | cons c r =>
      cases r' with
      | nil => cases hEnd.mpr rfl
      | cons c' r' => rfl
  | reject => rfl
  | ended hLost => exact absurd hLost id

end Grammar

/-! ## What is read from a text -/

theorem sameReading_of_tree {α : Type} {form : Form} {t t' : String}
    (f : SyntaxTree → Except SpecError α)
    (h : (SyntaxTree.ofText form t).toOption = (SyntaxTree.ofText form t').toOption) :
    SameReading (readTree form t >>= f) (readTree form t' >>= f) := by
  unfold readTree
  cases hTree : SyntaxTree.ofText form t with
  | ok tree =>
    cases hTree' : SyntaxTree.ofText form t' with
    | ok tree' =>
      rw [hTree, hTree'] at h
      obtain rfl := Option.some.inj h
      exact .inl rfl
    | error e =>
      rw [hTree, hTree'] at h
      cases h
  | error e =>
    cases hTree' : SyntaxTree.ofText form t' with
    | ok tree' =>
      rw [hTree, hTree'] at h
      cases h
    | error e' => exact .inr ⟨⟨e, rfl⟩, e', rfl⟩

/-- Layout does not matter: texts that differ in their gaps alone have the same tree under every
form, or are both malformed, and so are read as the same property, assumption or condition, or
refused for the same reason. -/
theorem layout_is_free {t t' : String} (h : Relaid t.toList t'.toList) :
    (∀ form, (SyntaxTree.ofText form t).toOption = (SyntaxTree.ofText form t').toOption) ∧
    ∀ resolver, SameReading (Property.ofText resolver t) (Property.ofText resolver t') ∧
      SameReading (Assumption.ofText resolver t) (Assumption.ofText resolver t') ∧
      SameReading (Expr.ofText resolver t) (Expr.ofText resolver t') := by
  have hTree : ∀ form, (SyntaxTree.ofText form t).toOption =
      (SyntaxTree.ofText form t').toOption := fun form =>
    whole_of_disregards (disregards_production form) h
  refine ⟨hTree, fun resolver => ⟨?_, ?_, ?_⟩⟩
  · exact sameReading_of_tree _ (hTree .property)
  · exact sameReading_of_tree _ (hTree .assumption)
  · exact sameReading_of_tree _ (hTree .predicate)

theorem comment_in_layout_is_free :
    SameReading (Property.ofText none "globally: no door")
      (Property.ofText none "globally:# \"never\" \x7b open\n\tno\r\n door") := by
  have hRelaid : Relaid "globally: no door".toList
      "globally:# \"never\" \x7b open\n\tno\r\n door".toList := by
    show Relaid ("globally:".toList ++ ' ' :: ("no".toList ++ ' ' :: "door".toList))
      ("globally:".toList ++ '#' :: " \"never\" \x7b open".toList ++ '\n' :: '\t' ::
        ("no".toList ++ '\r' :: '\n' :: ' ' :: "door".toList))
    rw [List.append_assoc]
    apply Relaid.append_plain (by simp [IsPlain, isGapChar])
    refine .gap (.blank rfl (.nothing _)) (by decide)
      (.comment (by decide) (.blank rfl (.nothing _))) (by decide) ?_
    apply Relaid.append_plain (by simp [IsPlain, isGapChar])
    refine .gap (.blank rfl (.nothing _)) (by decide)
      (.blank rfl (.blank rfl (.blank rfl (.nothing _)))) (by decide) ?_
    exact Relaid.refl _
  exact ((layout_is_free hRelaid).2 none).1

end TopicSpec
