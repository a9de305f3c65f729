import TopicSpec.Proofs.Literal.Value
import TopicSpec.Proofs.Phrase.Stated

/-! # What becomes of a bound

A time without limit is written as no bound at all, and stands for it in a pattern. The bounds that
are read as such a time are told here by what their number stands for exactly. -/

namespace TopicSpec
open Grammar Scan
set_option autoImplicit false

/-! ## Bounds as they are written -/

/-- Number and unit of a bound. -/
structure WrittenBound where
  amount : String
  unit : String
  deriving DecidableEq

namespace WrittenBound

def value (bound : WrittenBound) : ℚ := numberValue bound.amount.toList

/-- The number is an integer beyond its limit, or a frequency that is rounded to zero or to
infinity. -/
def Refused (bound : WrittenBound) : Prop :=
  IsTooGreat bound.amount.toList ∨
    bound.unit = "hz" ∧ (bound.value ≤ Double.underflow ∨ Double.overflow ≤ bound.value)

/-- The time that the bound stands for is rounded to infinity. -/
def Lost (bound : WrittenBound) : Prop :=
  if bound.unit = "hz" then bound.value ≤ Double.reciprocalOverflow
  else Double.overflow ≤ bound.value

end WrittenBound

/-- What a bound that may be left out makes of the time of a pattern. -/
def Limits (bound? : Option WrittenBound) (time : Double) : Prop :=
  match bound? with
  | none => time.isFinite = false
  | some bound => ¬bound.Refused ∧ (time.isFinite = true ↔ ¬bound.Lost)

namespace SyntaxTree

/-- The bound that a node stands for. -/
def written? : SyntaxTree → Option WrittenBound
  | node .timeAmount [leaf amount, leaf unit] | node .frequency [leaf amount, leaf unit] =>
    some ⟨amount.text, unit.text⟩
  | _ => none

/-- The bound of a property, which ends its pattern. -/
def bound? : SyntaxTree → Option WrittenBound
  | node .property [_, node _ parts] => parts.getLast?.bind written?
  | _ => none

end SyntaxTree

/-! ## Bounds as they are read -/

section
variable {lexeme unit : String} {x : Double}

theorem limits_of_timeAmount (h : IsNumber lexeme.toList) (hUnit : unit = "ms" ∨ unit = "s")
    (hOk : Literal.timeAmount lexeme unit = .ok x) : Limits (some ⟨lexeme, unit⟩) x := by
  obtain ⟨n, hAmount, hRest⟩ := ok_of_bind hOk
  obtain ⟨hLimit, rfl⟩ := rounded_of_amount h hAmount
  have hValue := numberValue_nonneg h
  have hUnit' : unit ≠ "hz" := by rcases hUnit with rfl | rfl <;> decide
  refine ⟨fun hRefused => hRefused.elim hLimit fun hBoth => hUnit' hBoth.1, ?_⟩
  rw [WrittenBound.Lost, if_neg hUnit', not_le, WrittenBound.value]
  rcases hUnit with rfl | rfl
  · obtain rfl := Except.ok.inj hRest
    exact Double.isFinite_divideBy_rounded hValue (by decide)
  · obtain rfl := Except.ok.inj hRest
    exact Double.isFinite_rounded_iff hValue

theorem limits_of_frequency (h : IsNumber lexeme.toList)
    (hOk : Literal.frequency lexeme "hz" = .ok x) : Limits (some ⟨lexeme, "hz"⟩) x := by
  obtain ⟨n, hAmount, hRest⟩ := ok_of_bind hOk
  obtain ⟨hLimit, rfl⟩ := rounded_of_amount h hAmount
  have hValue := numberValue_nonneg h
  simp only [ne_eq, not_true_eq_false, if_false] at hRest
  split at hRest
  · rename_i hPositive
    obtain rfl := Except.ok.inj hRest
    obtain ⟨hAbove, hBelow⟩ := (Double.isPositive_rounded_iff hValue).mp hPositive
    refine ⟨?_, ?_⟩
    · rintro (hGreat | ⟨-, hSmall | hLarge⟩)
      · exact hLimit hGreat
      · exact absurd hAbove (not_lt.mpr hSmall)
      · exact absurd hBelow (not_lt.mpr hLarge)
    · rw [WrittenBound.Lost, if_pos rfl, not_le]
      exact Double.isFinite_reciprocal_rounded hValue hPositive
  · cases hRest

end

namespace Phrase

variable {resolver : Option Resolver} {tree : SyntaxTree} {s t : List Char} {phrase : Phrase}
  {p : Pattern}

theorem limits_of_ofBound {rule : Rule} {convert : String → String → Except SpecError Double}
    (bound : WrittenBound)
    (hConvert : ∀ x, convert bound.amount bound.unit = .ok x → Limits (some bound) x)
    (h : ofBound rule convert [token ⟨.number, bound.amount⟩, token ⟨.unit, bound.unit⟩] =
      .ok phrase) :
    ∃ time, phrase = .seconds time ∧ Limits (some bound) time := by
  simp only [ofBound, toToken, if_true, ok_bind] at h
  obtain ⟨time, hTime, hPure⟩ := ok_of_bind h
  obtain rfl := Except.ok.inj hPure
  exact ⟨time, rfl, hConvert time hTime⟩

theorem limits_of_bound (h : Derives .bound tree s t) (hTree : ofTree resolver tree = .ok phrase) :
    ∃ time, phrase = .seconds time ∧ ∃ bound, tree.written? = some bound ∧
      Limits (some bound) time := by
  cases h with
  | @bound _ amount unit _ _ _ _ _ _ _ _ _ _ hNumber _ hUnit _ =>
    obtain ⟨_, _, hAmount, hLeaf, hNode⟩ := children_of_two hTree
    obtain rfl := Except.ok.inj hAmount
    obtain rfl := Except.ok.inj hLeaf
    have hLexeme : IsNumber (String.ofList amount).toList := by
      rw [String.toList_ofList]
      exact hNumber.2
    simp only [List.mem_cons, Prod.mk.injEq, List.not_mem_nil, or_false] at hUnit
    rcases hUnit with ⟨rfl, rfl⟩ | ⟨rfl, rfl⟩ | ⟨rfl, rfl⟩
    · obtain ⟨time, rfl, hLimits⟩ := limits_of_ofBound ⟨String.ofList amount, "ms"⟩
        (fun _ => limits_of_timeAmount hLexeme (.inl rfl)) hNode
      exact ⟨time, rfl, _, rfl, hLimits⟩
    · obtain ⟨time, rfl, hLimits⟩ := limits_of_ofBound ⟨String.ofList amount, "s"⟩
        (fun _ => limits_of_timeAmount hLexeme (.inr rfl)) hNode
      exact ⟨time, rfl, _, rfl, hLimits⟩
    · obtain ⟨time, rfl, hLimits⟩ := limits_of_ofBound ⟨String.ofList amount, "hz"⟩
        (fun _ => limits_of_frequency hLexeme) hNode
      exact ⟨time, rfl, _, rfl, hLimits⟩

theorem written?_event (h : Derives .event tree s t) : tree.written? = none := by
  cases h <;> rfl

/-- The last part of a pattern is its bound, or an event. -/
theorem limits_of_pattern (h : Derives .pattern tree s t)
    (hTree : ofTree resolver tree = .ok (.pattern p)) :
    ∃ rule parts, tree = .node rule parts ∧
      Limits (parts.getLast?.bind SyntaxTree.written?) p.maxTime := by
  cases h with
  | unaryPattern hRule _ _ hBehaviour =>
    obtain ⟨q, hChild, hNode⟩ := children_of_one hTree
    obtain ⟨behaviour, rfl, -⟩ := said_of_event hBehaviour hChild
    obtain ⟨_, hSame, -, hTime⟩ := pattern_of_unary hRule (.inl rfl) hNode
    obtain rfl := Phrase.pattern.inj hSame
    refine ⟨_, _, rfl, ?_⟩
    rw [hTime]
    simp [written?_event hBehaviour, Limits, timeOf, Double.isFinite]
  | boundedUnaryPattern hRule _ _ hBehaviour hLimit =>
    obtain ⟨q, r, hChild, hLimitChild, hNode⟩ := children_of_two hTree
    obtain ⟨behaviour, rfl, -⟩ := said_of_event hBehaviour hChild
    obtain ⟨time, rfl, bound, hWritten, hLimits⟩ := limits_of_bound hLimit hLimitChild
    obtain ⟨_, hSame, -, hTime⟩ := pattern_of_unary hRule (.inr ⟨time, rfl⟩) hNode
    obtain rfl := Phrase.pattern.inj hSame
    refine ⟨_, _, rfl, ?_⟩
    rw [hTime]
    simpa [hWritten, timeOf] using hLimits
  | binaryPattern hRule hLeft _ _ _ hRight =>
    obtain ⟨q, r, hLeftChild, hRightChild, hNode⟩ := children_of_two hTree
    obtain ⟨left, rfl, -⟩ := said_of_event hLeft hLeftChild
    obtain ⟨right, rfl, -⟩ := said_of_event hRight hRightChild
    obtain ⟨_, hSame, -, hTime⟩ := pattern_of_binary hRule (.inl rfl) hNode
    obtain rfl := Phrase.pattern.inj hSame
    refine ⟨_, _, rfl, ?_⟩
    rw [hTime]
    simp [written?_event hRight, Limits, timeOf, Double.isFinite]
  | boundedBinaryPattern hRule hLeft _ _ _ hRight hLimit =>
    obtain ⟨q, r, u, hLeftChild, hRightChild, hLimitChild, hNode⟩ := children_of_three hTree
    obtain ⟨left, rfl, -⟩ := said_of_event hLeft hLeftChild
    obtain ⟨right, rfl, -⟩ := said_of_event hRight hRightChild
    obtain ⟨time, rfl, bound, hWritten, hLimits⟩ := limits_of_bound hLimit hLimitChild
    obtain ⟨_, hSame, -, hTime⟩ := pattern_of_binary hRule (.inr ⟨time, rfl⟩) hNode
    obtain rfl := Phrase.pattern.inj hSame
    refine ⟨_, _, rfl, ?_⟩
    rw [hTime]
    simpa [hWritten, timeOf] using hLimits

end Phrase

/-! ## Whole texts -/

variable {resolver : Option Resolver} {text : String} {property : Property}

/-- The pattern of a text that is accepted has a limit exactly if the text has a bound, and the time
that the bound stands for is not rounded to infinity. -/
theorem Property.limits_of_ofText (h : Property.ofText resolver text = .ok property) :
    ∃ tree, SyntaxTree.ofText .property text = .ok tree ∧
      match tree.bound? with
      | none => property.pattern.isBounded = false
      | some bound => ¬bound.Refused ∧ (property.pattern.isBounded = true ↔ ¬bound.Lost) := by
  obtain ⟨hStated, -⟩ := Property.ofText_eq_ok_iff.mp h
  obtain ⟨tree, hRead, hRest⟩ := ok_of_bind hStated
  refine ⟨tree, ok_of_mapError hRead, ?_⟩
  obtain ⟨_, _, _, _, _, _, rfl, hScope, hPattern⟩ := pattern_of_readTree hRead
  obtain ⟨phrases, hPhrases, hMatch⟩ := ok_of_bind hRest
  obtain ⟨p, q, hP, hQ, rfl⟩ := ofTrees_two hPhrases
  obtain ⟨scope, rfl, -⟩ := Phrase.said_of_scope hScope hP
  obtain ⟨pattern, rfl, -⟩ := Phrase.said_of_pattern hPattern hQ
  obtain rfl := Except.ok.inj hMatch
  obtain ⟨rule, parts, rfl, hLimits⟩ := Phrase.limits_of_pattern (pattern_yields hPattern) hQ
  exact hLimits

/-- The text is accepted, and has a bound that the property has not. -/
def LosesBound (text : String) (bound : WrittenBound) : Prop :=
  ∃ property tree, Property.ofText none text = .ok property ∧
    SyntaxTree.ofText .property text = .ok tree ∧ tree.bound? = some bound ∧
    property.pattern.isBounded = false

theorem bounds_out_of_range_are_lost :
    LosesBound "globally: some a within 1e400 s" ⟨"1e400", "s"⟩ ∧
      LosesBound "globally: some a within 1e-320 hz" ⟨"1e-320", "hz"⟩ := by
  have hApply : ∀ (text : String) (bound : WrittenBound),
      (Property.ofText none text).isOk = true →
      (SyntaxTree.ofText .property text).toOption.map SyntaxTree.bound? = some (some bound) →
      bound.Lost → LosesBound text bound := by
    intro text bound hOk hBound hLost
    cases hText : Property.ofText none text with
    | error e =>
      rw [hText] at hOk
      cases hOk
    | ok property =>
      obtain ⟨tree, hTree, hLimits⟩ := Property.limits_of_ofText hText
      rw [hTree] at hBound
      have hSame : tree.bound? = some bound := Option.some.inj hBound
      rw [hSame] at hLimits
      refine ⟨property, tree, hText, hTree, hSame, ?_⟩
      exact Bool.eq_false_iff.mpr fun hBounded => hLimits.2.mp hBounded hLost
  constructor
  · refine hApply _ _ (by decide +kernel) (by decide +kernel) ?_
    have hPower : IsExponent "e400".toList :=
      ⟨'e', [], "400".toList, rfl, .inl rfl, .inl rfl, by decide, List.all_eq_true.mp rfl⟩
    have hValue := numberValue_scientific hPower (by decide : powerValue _ = 400)
    rw [WrittenBound.Lost, if_neg (by decide)]
    exact Double.overflow_le_power.trans_eq hValue.symm
  · refine hApply _ _ (by decide +kernel) (by decide +kernel) ?_
    have hPower : IsExponent "e-320".toList :=
      ⟨'e', ['-'], "320".toList, rfl, .inl rfl, .inr (.inr rfl), by decide,
        List.all_eq_true.mp rfl⟩
    have hValue := numberValue_scientific hPower (by decide : powerValue _ = -320)
    rw [WrittenBound.Lost, if_pos rfl]
    exact hValue.trans_le Double.power_le_reciprocalOverflow

end TopicSpec
