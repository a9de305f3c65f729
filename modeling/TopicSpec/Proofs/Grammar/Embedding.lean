import TopicSpec.Grammar.Specification
import TopicSpec.Proofs.Grammar.ConditionMirror

/-! # Conditions in brackets

A condition is the same condition where a closing mark stands on a line behind it. The line end
closes a comment at the end of the condition, and the mark is met where the condition is over. -/

namespace TopicSpec
open Grammar Scan Scan.Likeness
set_option autoImplicit false

/-! ## Texts with something behind them -/

/-- Two gaps behind the same text leave what is at its front as it is. -/
theorem Scan.Front.append {like : List Char → List Char → Prop} {closer : Option Char}
    {a b : List Char} (hLike : ∀ s, like (s ++ a) (s ++ b)) (hA : IsBare a) (hB : IsBare b)
    (hQuoteA : '"' ∉ a) (hQuoteB : '"' ∉ b) (s : List Char) :
    Scan.Front like closer (s ++ a) (s ++ b) := by
  cases s with
  | nil => exact .bare hA hB
  | cons c s =>
    by_cases hPlain : IsPlain c
    · exact .plain hPlain (hLike s)
    by_cases hQuote : c = '"'
    · subst hQuote
      by_cases hClosed : '"' ∈ s
      · obtain ⟨text, rest, rfl, hText⟩ := List.eq_append_cons_of_mem hClosed
        have hBehind : Scan.Front like closer ('"' :: text ++ '"' :: (rest ++ a))
            ('"' :: text ++ '"' :: (rest ++ b)) := .quotation hText (hLike rest)
        simpa using hBehind
      · exact .openQuotation (by simp [hClosed, hQuoteA]) (by simp [hClosed, hQuoteB])
    · have hBare : ∀ t, IsBare (c :: t) := by
        rintro t d hd
        obtain rfl : c = d := by simpa using hd
        exact ⟨hPlain, hQuote⟩
      exact .bare (hBare _) (hBare _)

/-- A gap ends within a text, or goes on behind it. -/
theorem Scan.afterGap_append_cases (comment : Bool) (s : List Char) :
    (∃ t, t ≠ [] ∧ ∀ a, afterGap comment (s ++ a) = t ++ a) ∨
      ∃ comment', ∀ a, afterGap comment (s ++ a) = afterGap comment' a := by
  induction s generalizing comment with
  | nil => exact .inr ⟨comment, fun _ => rfl⟩
  | cons c s ih =>
    simp only [List.cons_append, afterGap]
    split_ifs
    · exact ih _
    · exact ih _
    · exact ih _
    · exact .inl ⟨c :: s, List.cons_ne_nil _ _, fun _ => rfl⟩

/-- Where the first run leaves what it has to behind a value, so does the second one, provided that
this is not the end of its text. -/
theorem Scan.Mirrored.accepts_iff {α : Type} {lost : Prop} {Q : α → List Char → List Char → Prop}
    {o o' : Outcome α} {a : α} {left left' : List Char} (h : Mirrored lost Q o o')
    (hLeft : ∀ r r', Q a r r' → (afterGap false r = left ↔ afterGap false r' = left'))
    (hSome : left' ≠ []) :
    (∃ rest, o = .accept a rest ∧ afterGap false rest = left) ↔
      ∃ rest, o' = .accept a rest ∧ afterGap false rest = left' := by
  cases h with
  | @accept found r r' hRest =>
    simp only [Outcome.accept.injEq]
    constructor
    · rintro ⟨_, ⟨rfl, rfl⟩, hEnd⟩
      exact ⟨r', ⟨rfl, rfl⟩, (hLeft r r' hRest).mp hEnd⟩
    · rintro ⟨_, ⟨rfl, rfl⟩, hEnd⟩
      exact ⟨r, ⟨rfl, rfl⟩, (hLeft r r' hRest).mpr hEnd⟩
  | reject => simp
  | @ended _ _ o' _ hOver =>
    -- The second run has come to the end of its text.
    constructor
    · rintro ⟨_, hAccept, -⟩
      cases hAccept
    · rintro ⟨rest, rfl, hEnd⟩
      obtain rfl : rest = [] := hOver
      exact absurd hEnd.symm hSome

/-! ## Marks on a line of their own -/

/-- The mark stands on a line behind the text, or the text is over and the mark is next. -/
inductive Enclosed (mark : Char) : List Char → List Char → Prop where
  | behind (s : List Char) : Enclosed mark s (s ++ ['\n', mark])
  | next : Enclosed mark [] [mark]

namespace Enclosed

variable {mark : Char} {s s' : List Char}

theorem front (hMark : mark ≠ '"') (h : Enclosed mark s s') :
    Front (Enclosed mark) (some mark) s s' := by
  cases h with
  | next => exact .closed rfl
  | behind s =>
    have hLike : ∀ t, Enclosed mark (t ++ []) (t ++ ['\n', mark]) := fun t =>
      (List.append_nil t).symm ▸ .behind t
    have hLine : IsBare ['\n', mark] := by
      rintro c hc
      obtain rfl : '\n' = c := by simpa using hc
      decide
    have hFront : Front (Enclosed mark) (some mark) (s ++ []) (s ++ ['\n', mark]) :=
      .append hLike nofun hLine List.not_mem_nil (by simp [Ne.symm hMark]) s
    rwa [List.append_nil] at hFront

/-- The gap at the front ends within the text, or the mark is what comes behind it. -/
theorem afterGap_cases (hMark : afterGap false [mark] = [mark]) (h : Enclosed mark s s') :
    (∃ t, t ≠ [] ∧ afterGap false s = t ∧ afterGap false s' = t ++ ['\n', mark]) ∨
      afterGap false s = [] ∧ afterGap false s' = [mark] := by
  cases h with
  | next => exact .inr ⟨rfl, hMark⟩
  | behind s =>
    rcases afterGap_append_cases false s with ⟨t, hSome, hKept⟩ | ⟨comment, hOver⟩
    · have hText := hKept []
      rw [List.append_nil, List.append_nil] at hText
      exact .inl ⟨t, hSome, hText, hKept _⟩
    · have hText := hOver []
      rw [List.append_nil] at hText
      refine .inr ⟨hText, (hOver _).trans ?_⟩
      cases comment <;> exact hMark

theorem gap (hMark : afterGap false [mark] = [mark]) (h : Enclosed mark s s') :
    Enclosed mark (afterGap false s) (afterGap false s') := by
  rcases h.afterGap_cases hMark with ⟨t, -, hText, hText'⟩ | ⟨hOver, hOver'⟩
  · rw [hText, hText']
    exact .behind t
  · rw [hOver, hOver']
    exact .next

/-- Nothing is left of the one text exactly if the mark is left of the other. -/
theorem over_iff (hMark : afterGap false [mark] = [mark]) (h : Enclosed mark s s') :
    afterGap false s = [] ↔ afterGap false s' = [mark] := by
  rcases h.afterGap_cases hMark with ⟨t, hSome, hText, hText'⟩ | ⟨hOver, hOver'⟩
  · rw [hText, hText']
    refine iff_of_false hSome fun hEq => ?_
    have hLonger := congrArg List.length hEq
    simp only [List.length_append, List.length_cons, List.length_nil] at hLonger
    omega
  · exact iff_of_true hOver hOver'

end Enclosed

theorem afterGap_mark {mark : Char} (hMark : mark = '\x7d' ∨ mark = ')') :
    afterGap false [mark] = [mark] := by rcases hMark with rfl | rfl <;> rfl

/-- The texts from the beginning of a condition and from that of the condition in brackets. -/
def Likeness.enclosed (mark : Char) (hMark : mark = '\x7d' ∨ mark = ')') : Likeness where
  like := Enclosed mark
  closer := some mark
  closes hc := by
    obtain rfl := Option.some.inj hc
    exact hMark
  front := Enclosed.front (by rcases hMark with rfl | rfl <;> decide)
  gap := Enclosed.gap (afterGap_mark hMark)

namespace Grammar

/-- A whole text is a condition with nothing but a gap on either side. -/
theorem topLevelCondition_eq_accept_iff {s : List Char} {condition : SyntaxTree} :
    topLevelCondition s = .accept (.node .topLevelCondition [condition]) [] ↔
      ∃ rest, anyCondition (afterGap false s) = .accept condition rest ∧
        afterGap false rest = [] := by
  rw [topLevelCondition, bind_of_accept (gap_eq_accept s), bind_eq_accept_iff]
  constructor
  · rintro ⟨found, rest, hFound, hRest⟩
    rw [bind_of_accept (gap_eq_accept rest)] at hRest
    obtain ⟨hTree, hEnd⟩ := pure_eq_accept_iff.mp hRest
    cases hTree
    exact ⟨rest, hFound, hEnd⟩
  · rintro ⟨rest, hFound, hEnd⟩
    refine ⟨condition, rest, hFound, ?_⟩
    rw [bind_of_accept (gap_eq_accept rest), hEnd]
    rfl

/-- A text holds a condition and nothing else exactly if the condition reaches up to the mark where
one stands on a line behind the text. -/
theorem anyCondition_enclosed {mark : Char} (hMark : mark = '\x7d' ∨ mark = ')')
    (s : List Char) (tree : SyntaxTree) :
    (∃ rest, anyCondition (afterGap false s) = .accept tree rest ∧ afterGap false rest = []) ↔
      ∃ rest, anyCondition (afterGap false (s ++ ['\n', mark])) = .accept tree rest ∧
        afterGap false rest = [mark] := by
  have hLike : Enclosed mark (afterGap false s) (afterGap false (s ++ ['\n', mark])) :=
    (Likeness.enclosed mark hMark).gap (.behind s)
  have hNear : (Likeness.enclosed mark hMark).Near _ _ (afterGap false s)
      (afterGap false (s ++ ['\n', mark])) := ⟨hLike, Nat.lt_succ_self _, Nat.lt_succ_self _⟩
  have hRun := mirrors_anyCondition _ _ _ _ _ hNear
  exact hRun.accepts_iff (fun r r' hRest => hRest.like.over_iff (afterGap_mark hMark))
    (List.cons_ne_nil _ _)

end Grammar
end TopicSpec
