import TopicSpec.Proofs.Double.Shortest
import TopicSpec.Proofs.Phrase.Skeleton

/-! # Reading the text of a bound again

A time is written in seconds and without exponent, and one that is a whole number without point.
Digits alone are an integer to the reader, and integers have a limit that times do not have. -/

namespace TopicSpec
open Grammar Scan
set_option autoImplicit false

namespace Double

/-- The double is a time of at most as many seconds as an integer can count. -/
def Countable (x : Double) : Prop :=
  ∃ p : Fin patternLimit, x = finite false p ∧ magnitude p ≤ Literal.integerLimit

variable {x : Double}

theorem isTooGreat_iff_not_countable (hUnsigned : x.IsUnsigned) (hFinite : x.isFinite = true) :
    IsTooGreat x.render ↔ ¬x.Countable := by
  obtain ⟨p, rfl⟩ : ∃ p, x = finite false p := hUnsigned.resolve_left fun hInfinite => by
    rw [hInfinite] at hFinite
    cases hFinite
  rw [isTooGreat_render_iff, ← not_le, not_iff_not]
  constructor
  · exact fun hLimit => ⟨p, rfl, hLimit⟩
  · rintro ⟨q, hSame, hLimit⟩
    rwa [(Double.finite.inj hSame).2]

theorem isNumber_render (hUnsigned : x.IsUnsigned) (hFinite : x.isFinite = true) :
    IsNumber x.render := by
  rcases hUnsigned with rfl | ⟨p, rfl⟩
  · cases hFinite
  · exact (render_number p).1

theorem roundTrips_of_countable (h : x.Countable) : x.RoundTrips := by
  obtain ⟨p, rfl, hLimit⟩ := h
  obtain ⟨hNumber, hRounded, -⟩ := render_number p
  have hLexeme : IsNumber (String.ofList (finite false p).render).toList := by
    rwa [String.toList_ofList]
  refine ⟨hNumber, ?_⟩
  rcases ofNumber_eq hLexeme with ⟨hGreat, -⟩ | ⟨-, l, hRead, hValue⟩
  · rw [String.toList_ofList, isTooGreat_render_iff] at hGreat
    exact absurd hGreat (not_lt.mpr hLimit)
  · rw [String.toList_ofList, hRounded] at hValue
    exact ⟨l, hRead, hValue⟩

end Double

theorem timeAmount_of_isTooGreat {word : List Char} (hNumber : IsNumber word)
    (hGreat : IsTooGreat word) :
    Literal.timeAmount (String.ofList word) "s" =
      .error (.binding (.integerOutOfRange (String.ofList word))) := by
  have hLexeme : IsNumber (String.ofList word).toList := by rwa [String.toList_ofList]
  rcases ofNumber_eq hLexeme with ⟨-, hError⟩ | ⟨hLess, -⟩
  · rw [Literal.timeAmount, Literal.amount, hError]
    rfl
  · rw [String.toList_ofList] at hLess
    exact absurd hGreat hLess

/-! ## Whole texts -/

variable {resolver : Option Resolver} {text : String} {property : Property}

/-- The text of the bound of a property is read as the bound, unless it is a number of seconds
beyond the limit of integers: then it is refused. -/
theorem Property.bound_of_rendered (h : Property.ofText resolver text = .ok property)
    (hBounded : property.pattern.isBounded = true) :
    (∃ front, property.render = front ++ Pattern.renderBound property.pattern.maxTime) ∧
      ∃ tree, bound (Pattern.renderBound property.pattern.maxTime).toList = .accept tree [] ∧
        (property.pattern.maxTime.Countable →
          Phrase.ofTree none tree = .ok (.seconds property.pattern.maxTime)) ∧
        (¬property.pattern.maxTime.Countable →
          Phrase.ofTree none tree = .error (.binding
            (.integerOutOfRange (String.ofList property.pattern.maxTime.render)))) := by
  obtain ⟨hStated, -⟩ := Property.ofText_eq_ok_iff.mp h
  have hUnsigned := (Property.said_of_stated hStated).pattern.time
  have hFinite : property.pattern.maxTime.isFinite = true := hBounded
  have hNumber := Double.isNumber_render hUnsigned hFinite
  refine ⟨⟨property.scope.render ++ ": " ++ property.pattern.renderEvents, ?_⟩,
    secondsTree property.pattern.maxTime.render, ?_, fun hCountable => ?_, fun hGreat => ?_⟩
  · rw [Property.render, Pattern.render, ← String.append_assoc]
  · rw [Pattern.toList_renderBound, boundChars, if_pos hFinite]
    exact bound_append hNumber
  · obtain ⟨tree, hAccept, hTree⟩ := conveys_bound (Double.roundTrips_of_countable hCountable)
    obtain ⟨rfl, -⟩ := Outcome.accept.inj ((bound_append hNumber).symm.trans hAccept)
    exact hTree
  · have hIsGreat := (Double.isTooGreat_iff_not_countable hUnsigned hFinite).mpr hGreat
    rw [ofTree_secondsTree, timeAmount_of_isTooGreat hNumber hIsGreat]
    rfl

/-- A bound that is accepted, and whose text is refused. -/
theorem text_of_long_bound_is_refused :
    ∃ property, Property.ofText none "globally: some a within 1e39 s" = .ok property ∧
      property.pattern.isBounded = true ∧
      Pattern.renderBound property.pattern.maxTime =
        " within 1000000000000000000000000000000000000000s" ∧
      ∃ tree, bound (Pattern.renderBound property.pattern.maxTime).toList = .accept tree [] ∧
        Phrase.ofTree none tree = .error (.binding
          (.integerOutOfRange "1000000000000000000000000000000000000000")) := by
  have hRead : (Property.ofText none "globally: some a within 1e39 s").toOption.map
        (fun p => (p.pattern.isBounded, p.pattern.maxTime.render)) =
      some (true, "1000000000000000000000000000000000000000".toList) := by decide +kernel
  cases hText : Property.ofText none "globally: some a within 1e39 s" with
  | error e =>
    rw [hText] at hRead
    cases hRead
  | ok property =>
    rw [hText] at hRead
    obtain ⟨hBounded, hRender⟩ := Prod.mk.inj (Option.some.inj hRead)
    obtain ⟨-, tree, hAccept, -, hRefused⟩ := Property.bound_of_rendered hText hBounded
    refine ⟨property, rfl, hBounded, ?_, tree, hAccept, ?_⟩
    · have hFinite : property.pattern.maxTime.isFinite = true := hBounded
      rw [Pattern.renderBound, if_pos hFinite, hRender]
      rfl
    · have hDigits : IsDigits property.pattern.maxTime.render := by
        rw [hRender]
        exact ⟨List.cons_ne_nil _ _, List.all_eq_true.mp rfl⟩
      have hGreat : IsTooGreat property.pattern.maxTime.render := by
        refine ⟨List.all_eq_true.mpr hDigits.2, ?_⟩
        rw [numberValue_digits hDigits, hRender]
        exact Nat.cast_le.mpr (by decide +kernel)
      have hUnsigned := (Property.said_of_stated (Property.ofText_eq_ok_iff.mp hText).1).pattern.time
      rw [hRefused ((Double.isTooGreat_iff_not_countable hUnsigned hBounded).mp hGreat), hRender]
      rfl

end TopicSpec
