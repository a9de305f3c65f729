import Mathlib.Analysis.Real.Pi.Bounds
import TopicSpec.Proofs.Double.Range
import TopicSpec.Proofs.Literal.Value
import TopicSpec.SyntaxTree

/-! # What literals stand for

Every sort of lexeme has its meaning: digits alone are an integer, any other number is rounded, and
the inner part of a quoted text stands for itself. A literal has the value of one lexeme, with any
number of minus signs before it. -/

namespace TopicSpec
open Scan
set_option autoImplicit false

/-! ## The ratio of a circle to its diameter -/

namespace Double

/-- All numbers that are close enough to the given one are rounded to the double. -/
def IsNearestTo (x : Double) (r : ℝ) : Prop :=
  ∃ ε > (0 : ℝ), ∀ v : ℚ, |(v : ℝ) - r| < ε → rounded v = x

theorem midpoint_div {e s : Nat} (hLow : 2 ^ 52 ≤ s) (hHigh : s < 2 ^ 53) :
    (midpoint (e * 2 ^ 52 + s) : ℚ) / 2 ^ (52 + e) = (2 * s + 1) / 2 ^ 52 := by
  rw [midpoint_binade (.inr hLow) hHigh, pow_add]
  push_cast
  exact mul_div_mul_right _ _ (pow_ne_zero _ two_ne_zero)

/-- Doubles from two to four have the exponent of 1023 units. -/
theorem nearest_of_between {v : ℚ} {s : Nat} (hOdd : s % 2 = 1) (hLow : 2 ^ 52 ≤ s)
    (hHigh : s + 1 < 2 ^ 53) (hAbove : (2 * s + 1 : ℚ) / 2 ^ 52 < v)
    (hBelow : v < (2 * (s + 1 : Nat) + 1 : ℚ) / 2 ^ 52) :
    nearest v = 1023 * 2 ^ 52 + (s + 1) := by
  have hv : 0 ≤ v := le_trans (by positivity) hAbove.le
  rw [← midpoint_div (e := 1023) hLow (by omega), midpoint_div_lt_iff] at hAbove
  rw [← midpoint_div (e := 1023) (by omega) hHigh] at hBelow
  apply le_antisymm
  · refine Nat.le_of_not_lt fun hBeyond => hBelow.not_gt ?_
    exact (lt_nearest_of_even hv (by omega)).mp hBeyond
  · exact (lt_nearest_iff hv).mpr (.inl hAbove)

theorem pi_isNearestTo : pi.IsNearestTo Real.pi := by
  refine ⟨1 / 10 ^ 17, by positivity, fun v hClose => ?_⟩
  obtain ⟨hAbove, hBelow⟩ := abs_lt.mp hClose
  have hGreater := Real.pi_gt_d20
  have hLess := Real.pi_lt_d20
  have hNearest : nearest v = 0x400921fb54442d18 := by
    apply nearest_of_between (s := 0x1921fb54442d17) (by decide) (by decide) (by decide)
    · rw [← Rat.cast_lt (K := ℝ)]
      norm_num at *
      linarith
    · rw [← Rat.cast_lt (K := ℝ)]
      norm_num at *
      linarith
  have hFinite : 0x400921fb54442d18 < patternLimit := by decide
  simp only [rounded, hNearest, hFinite, dif_pos]
  rfl

end Double

/-! ## Lexemes -/

/-- What a lexeme stands for. -/
inductive Token.Denotes : Token → LiteralValue → Prop where
  | circle {x : Double} : x.IsNearestTo Real.pi → Denotes ⟨.constant, "PI"⟩ (.double x)
  | infinite : Denotes ⟨.constant, "INF"⟩ (.double (.infinity false))
  | undefined : Denotes ⟨.constant, "NAN"⟩ (.double .nan)
  | boolean (b : Bool) : Denotes ⟨.boolean, if b then "True" else "False"⟩ (.bool b)
  | quoted {inner : List Char} :
    '"' ∉ inner →
    Denotes ⟨.string, String.ofList ('"' :: inner ++ ['"'])⟩ (.text (String.ofList inner))
  | integer {digits : List Char} :
    IsDigits digits → Denotes ⟨.number, String.ofList digits⟩ (.int (Double.ofDigits digits))
  | decimal {word : List Char} :
    IsNumber word → ¬IsDigits word →
    Denotes ⟨.number, String.ofList word⟩ (.double (.rounded (numberValue word)))

section
variable {word : String} {l negative : Literal}

theorem denotes_of_ofConstant (hWord : word ∈ ["PI", "INF", "NAN"])
    (h : Literal.ofConstant word = .ok l) : Token.Denotes ⟨.constant, word⟩ l.value := by
  simp only [List.mem_cons, List.not_mem_nil, or_false] at hWord
  rcases hWord with rfl | rfl | rfl
  · rw [← Except.ok.inj h]
    exact .circle Double.pi_isNearestTo
  · rw [← Except.ok.inj h]
    exact .infinite
  · rw [← Except.ok.inj h]
    exact .undefined

theorem denotes_of_ofBoolean (hWord : word ∈ ["True", "False"])
    (h : Literal.ofBoolean word = .ok l) : Token.Denotes ⟨.boolean, word⟩ l.value := by
  simp only [List.mem_cons, List.not_mem_nil, or_false] at hWord
  rcases hWord with rfl | rfl
  · rw [← Except.ok.inj h]
    exact .boolean true
  · rw [← Except.ok.inj h]
    exact .boolean false

theorem denotes_of_ofQuoted (hWord : IsQuoted word.toList) (h : Literal.ofQuoted word = .ok l) :
    Token.Denotes ⟨.string, word⟩ l.value := by
  obtain ⟨inner, hInner, hNoQuote⟩ := hWord
  obtain rfl : word = String.ofList ('"' :: inner ++ ['"']) := by
    rw [← hInner, String.ofList_toList]
  rw [ofQuoted_eq_ok] at h
  rw [← Except.ok.inj h]
  exact .quoted hNoQuote

theorem denotes_of_ofNumber (hWord : IsNumber word.toList) (h : Literal.ofNumber word = .ok l) :
    Token.Denotes ⟨.number, word⟩ l.value ∧
      ∀ n, l.value = .int n → n.natAbs < Literal.integerLimit := by
  have hText : String.ofList word.toList = word := String.ofList_toList
  unfold Literal.ofNumber at h
  dsimp only at h
  split at h
  · rename_i hDigits
    obtain ⟨-, hAll⟩ := Bool.and_eq_true_iff.mp hDigits
    split at h
    · rename_i hLess
      rw [← Except.ok.inj h]
      refine ⟨?_, fun n hn => ?_⟩
      · have hDenotes := Token.Denotes.integer (isDigits_of_all hWord hAll)
        rwa [hText] at hDenotes
      · obtain rfl := LiteralValue.int.inj hn
        exact hLess
    · cases h
  · rename_i hDigits
    have hOther : ¬IsDigits word.toList := by
      rintro ⟨hNonempty, hAll⟩
      exact hDigits (by simpa [hNonempty] using hAll)
    rw [ofText?_number hWord] at h
    rw [← Except.ok.inj h]
    refine ⟨?_, nofun⟩
    have hDenotes := Token.Denotes.decimal hWord hOther
    rwa [hText] at hDenotes

/-! ## Signs -/

namespace LiteralValue

def neg : LiteralValue → LiteralValue
  | int n => int (-n)
  | double x => double x.neg
  | value => value

def isNumber : LiteralValue → Bool
  | int _ | double _ => true
  | _ => false

theorem isNumber_iterate_neg (signs : Nat) (value : LiteralValue) :
    (neg^[signs] value).isNumber = value.isNumber := by
  induction signs with
  | zero => rfl
  | succ signs ih =>
    rw [Function.iterate_succ_apply', ← ih]
    cases neg^[signs] value <;> rfl

end LiteralValue

theorem value_of_negate? (h : l.negate? = some negative) :
    negative.value = l.value.neg ∧ l.value.isNumber = true := by
  obtain ⟨lexeme, value⟩ := l
  cases value with
  | int n =>
    obtain ⟨-, hSome⟩ := Option.ite_none_left_eq_some.mp h
    rw [← Option.some.inj hSome]
    exact ⟨rfl, rfl⟩
  | double x =>
    rw [← Option.some.inj h]
    exact ⟨rfl, rfl⟩
  | bool _ | text _ => cases h

/-- The literal is one of the lexemes with a number of minus signs before it. Only numbers have
signs. -/
def Literal.IsAmong (tokens : List Token) (l : Literal) : Prop :=
  ∃ (signs : Nat) (token : Token) (value : LiteralValue), token ∈ tokens ∧ token.Denotes value ∧
    (signs = 0 ∨ value.isNumber = true) ∧
    l.lexeme = String.ofList (List.replicate signs '-' ++ token.text.toList) ∧
    l.value = LiteralValue.neg^[signs] value

namespace Literal

variable {tokens more : List Token}

theorem isAmong_of_denotes {token : Token} (hToken : token ∈ tokens)
    (hLexeme : l.lexeme = token.text) (h : token.Denotes l.value) : l.IsAmong tokens :=
  ⟨0, token, l.value, hToken, h, .inl rfl, by simpa using hLexeme, rfl⟩

theorem IsAmong.mono (h : l.IsAmong tokens) (hTokens : tokens ⊆ more) : l.IsAmong more := by
  obtain ⟨signs, token, value, hToken, hRest⟩ := h
  exact ⟨signs, token, value, hTokens hToken, hRest⟩

theorem IsAmong.negated (h : l.IsAmong tokens) (hNegate : l.negate? = some negative) :
    negative.IsAmong tokens := by
  obtain ⟨signs, token, value, hToken, hDenotes, -, hLexeme, hValue⟩ := h
  obtain ⟨hNegative, hNumber⟩ := value_of_negate? hNegate
  rw [hValue, LiteralValue.isNumber_iterate_neg] at hNumber
  refine ⟨signs + 1, token, value, hToken, hDenotes, .inr hNumber, ?_, ?_⟩
  · rw [lexeme_of_negate? hNegate, hLexeme, List.replicate_succ, List.cons_append,
      String.ofList_cons]
    rfl
  · rw [hNegative, hValue, Function.iterate_succ_apply']

end Literal
end

end TopicSpec
