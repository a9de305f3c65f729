import Mathlib.Algebra.Order.Field.Power
import Mathlib.Tactic.FieldSimp
import TopicSpec.Proofs.Double.Decimal
import TopicSpec.Proofs.Literal.Reading

/-! # The value of a number

What a number of the grammar stands for, without rounding, and that it is read as the double nearest
to it. Digits alone are read as an integer first, which has to be below its limit. -/

namespace TopicSpec
open Scan
set_option autoImplicit false

/-! ## Exact values -/

namespace Scan

/-- The whole number behind the mark of an exponent. -/
def powerValue : List Char → Int
  | [] => 0
  | _ :: '-' :: digits => -(Double.ofDigits digits : Int)
  | _ :: '+' :: digits => Double.ofDigits digits
  | _ :: digits => Double.ofDigits digits

/-- The number that digits with a point and an exponent stand for. -/
def numberValue (word : List Char) : ℚ :=
  let isMark := fun c => c == 'e' || c == 'E'
  let mantissa := word.takeWhile fun c => !isMark c
  let power := word.dropWhile fun c => !isMark c
  let whole := mantissa.takeWhile (· != '.')
  let part := (mantissa.dropWhile (· != '.')).drop 1
  (Double.ofDigits whole + Double.ofDigits part / 10 ^ part.length) * 10 ^ powerValue power

end Scan

variable {word whole part power : List Char}

theorem isDigit_ne {c d : Char} (h : c.isDigit = true) (hd : d.isDigit = false) : c ≠ d := by
  rintro rfl
  rw [hd] at h
  cases h

theorem numberValue_append (hWhole : IsDigits whole) (hPart : part = [] ∨ IsFraction part)
    (hPower : power = [] ∨ IsExponent power) :
    numberValue (whole ++ part ++ power) =
      (Double.ofDigits whole + Double.ofDigits (part.drop 1) / 10 ^ (part.drop 1).length) *
        10 ^ powerValue power := by
  have hMantissa : ∀ c ∈ whole ++ part, (!(c == 'e' || c == 'E')) = true := by
    intro c hc
    have hClass : c.isDigit = true ∨ c = '.' := by
      rcases List.mem_append.mp hc with hc | hc
      · exact .inl (hWhole.2 c hc)
      · rcases hPart with rfl | ⟨digits, rfl, hDigits⟩
        · cases hc
        · exact (List.mem_cons.mp hc).symm.imp_left (hDigits.2 c)
    rcases hClass with hDigit | rfl
    · simp [isDigit_ne hDigit (d := 'e') rfl, isDigit_ne hDigit (d := 'E') rfl]
    · rfl
  have hMark : Stops (fun c => !(c == 'e' || c == 'E')) power := by
    rcases hPower with rfl | ⟨mark, sign, digits, rfl, rfl | rfl, -⟩
    · exact stops_nil _
    · exact stops_cons_iff.mpr rfl
    · exact stops_cons_iff.mpr rfl
  have hDigits : ∀ c ∈ whole, (c != '.') = true := fun c hc => by
    simpa using isDigit_ne (hWhole.2 c hc) (d := '.') rfl
  have hPoint : Stops (· != '.') part := by
    rcases hPart with rfl | ⟨digits, rfl, -⟩
    · exact stops_nil _
    · exact stops_cons_iff.mpr rfl
  obtain ⟨hTake, hDrop⟩ := takeWhile_dropWhile_iff.mpr ⟨rfl, hMantissa, hMark⟩
  obtain ⟨hTake', hDrop'⟩ := takeWhile_dropWhile_iff.mpr ⟨rfl, hDigits, hPoint⟩
  simp only [numberValue, hTake, hDrop, hTake', hDrop']

theorem exponent?_eq (h : power = [] ∨ IsExponent power) :
    Double.exponent? power = some (powerValue power) := by
  rcases h with rfl | ⟨mark, sign, digits, rfl, hMark, hSign, hDigits⟩
  · rfl
  · have hMark' : (mark == 'e' || mark == 'E') = true := by simpa using hMark
    have hAll : digits.all Char.isDigit = true := List.all_eq_true.mpr hDigits.2
    rcases hSign with rfl | rfl | rfl
    · obtain ⟨c, more, rfl⟩ := List.exists_cons_of_ne_nil hDigits.1
      have hDigit := hDigits.2 c List.mem_cons_self
      have hValue : powerValue (mark :: c :: more) = Double.ofDigits (c :: more) := by
        unfold powerValue
        split
        · cases ‹mark :: c :: more = []›
        · rename_i hEq
          cases hEq
          cases hDigit
        · rename_i hEq
          cases hEq
          cases hDigit
        · rename_i hEq
          cases hEq
          rfl
      have hSplit : Double.splitSign (c :: more) = (false, c :: more) := by
        simpa using splitSign_digits hDigits []
      simp [Double.exponent?, hMark', hSplit, hAll, hValue]
    · simp [Double.exponent?, hMark', Double.splitSign, hDigits.1, hAll, powerValue]
    · simp [Double.exponent?, hMark', Double.splitSign, hDigits.1, hAll, powerValue]

theorem numberValue_nonneg (h : IsNumber word) : 0 ≤ numberValue word := by
  obtain ⟨whole, part, power, rfl, hWhole, hPart, hPower⟩ := h
  rw [numberValue_append hWhole hPart hPower]
  positivity

/-- A number that is no integer is read as the double nearest to it. -/
theorem ofText?_number (h : IsNumber word) :
    Double.ofText? word = some (Double.rounded (numberValue word)) := by
  rw [ofText?_eq_ofUnsigned? h]
  obtain ⟨whole, part, power, rfl, hWhole, hPart, hPower⟩ := h
  rw [ofUnsigned?_append false hWhole hPart hPower, exponent?_eq hPower, Option.map_some,
    Double.ofDecimal_eq, numberValue_append hWhole hPart hPower, Double.ofDigits_append]
  have hTen : (10 : ℚ) ≠ 0 := by norm_num
  congr 2
  rw [zpow_sub₀ hTen, zpow_natCast]
  push_cast
  field_simp

theorem numberValue_scientific {exponent : Int} (hPower : IsExponent power)
    (hExponent : powerValue power = exponent) : numberValue ('1' :: power) = 10 ^ exponent := by
  have hOne : IsDigits ['1'] := ⟨List.cons_ne_nil _ _, List.all_eq_true.mp rfl⟩
  have hValue := numberValue_append hOne (.inl rfl) (.inr hPower)
  have hDigit : Double.ofDigits ['1'] = 1 := rfl
  simpa [hExponent, hDigit, Double.ofDigits] using hValue

/-! ## Integers -/

theorem numberValue_digits (h : IsDigits word) : numberValue word = Double.ofDigits word := by
  have hValue := numberValue_append h (.inl rfl) (.inl rfl)
  simpa [powerValue, Double.ofDigits] using hValue

theorem ofInt_natCast (n : Nat) : Double.ofInt n = Double.rounded n := by
  have hSign : decide ((n : Int) < 0) = false := decide_eq_false (by omega)
  rw [Double.ofInt, hSign, Int.natAbs_natCast, Double.ofRatio_eq n Nat.one_pos, Nat.cast_one, div_one]

/-- An integer beyond the limit. -/
def Scan.IsTooGreat (word : List Char) : Prop :=
  word.all Char.isDigit = true ∧ (Literal.integerLimit : ℚ) ≤ numberValue word

theorem isDigits_of_all (h : IsNumber word) (hAll : word.all Char.isDigit = true) :
    IsDigits word := by
  obtain ⟨whole, part, power, rfl, ⟨hNonempty, -⟩, -⟩ := h
  exact ⟨by simp [hNonempty], List.all_eq_true.mp hAll⟩

section
variable {lexeme : String}

/-- Digits alone are an integer or too great for one; any other number is a double. -/
theorem ofNumber_cases (h : IsNumber lexeme.toList) :
    (IsDigits lexeme.toList ∧ Double.ofDigits lexeme.toList < Literal.integerLimit ∧
      Literal.ofNumber lexeme = .ok ⟨lexeme, .int (Double.ofDigits lexeme.toList)⟩) ∨
    (IsDigits lexeme.toList ∧ Literal.integerLimit ≤ Double.ofDigits lexeme.toList ∧
      Literal.ofNumber lexeme = .error (.binding (.integerOutOfRange lexeme))) ∨
    (¬IsDigits lexeme.toList ∧ Literal.ofNumber lexeme =
      .ok ⟨lexeme, .double (Double.rounded (numberValue lexeme.toList))⟩) := by
  unfold Literal.ofNumber
  cases hAll : lexeme.toList.all Char.isDigit with
  | true =>
    have hDigits := isDigits_of_all h hAll
    have hNonempty : lexeme.toList.isEmpty = false := by simpa using hDigits.1
    simp only [hNonempty, hAll, Bool.not_false, Bool.and_self, if_true]
    by_cases hLess : Double.ofDigits lexeme.toList < Literal.integerLimit
    · exact .inl ⟨hDigits, hLess, if_pos hLess⟩
    · exact .inr (.inl ⟨hDigits, not_lt.mp hLess, if_neg hLess⟩)
  | false =>
    have hDigits : ¬IsDigits lexeme.toList := by
      intro hDigits
      rw [List.all_eq_true.mpr hDigits.2] at hAll
      cases hAll
    simp only [hAll, Bool.and_false, Bool.false_eq_true, if_false, ofText?_number h]
    exact .inr (.inr ⟨hDigits, trivial⟩)

theorem ofNumber_eq (h : IsNumber lexeme.toList) :
    (IsTooGreat lexeme.toList ∧
      Literal.ofNumber lexeme = .error (.binding (.integerOutOfRange lexeme))) ∨
    (¬IsTooGreat lexeme.toList ∧ ∃ l, Literal.ofNumber lexeme = .ok l ∧
      l.toDouble? = some (Double.rounded (numberValue lexeme.toList))) := by
  rcases ofNumber_cases h with ⟨hDigits, hLess, hRead⟩ | ⟨hDigits, hLimit, hRead⟩ |
    ⟨hDigits, hRead⟩
  · rw [IsTooGreat, numberValue_digits hDigits, Nat.cast_le, not_and]
    exact .inr ⟨fun _ => not_le.mpr hLess, _, hRead, congrArg some (ofInt_natCast _)⟩
  · rw [IsTooGreat, numberValue_digits hDigits, Nat.cast_le]
    exact .inl ⟨⟨List.all_eq_true.mpr hDigits.2, hLimit⟩, hRead⟩
  · exact .inr ⟨fun hGreat => hDigits (isDigits_of_all h hGreat.1), _, hRead, rfl⟩

/-- An amount that is read is the double nearest to what it stands for. -/
theorem rounded_of_amount {rule : Rule} {x : Double} (h : IsNumber lexeme.toList)
    (hAmount : Literal.amount rule lexeme = .ok x) :
    ¬IsTooGreat lexeme.toList ∧ x = Double.rounded (numberValue lexeme.toList) := by
  obtain ⟨l, hRead, hValue⟩ := ok_of_bind hAmount
  rcases ofNumber_eq h with ⟨-, hError⟩ | ⟨hGreat, found, hOk, hDouble⟩
  · cases hRead.symm.trans hError
  · obtain rfl := Except.ok.inj (hRead.symm.trans hOk)
    rw [hDouble] at hValue
    exact ⟨hGreat, (Except.ok.inj hValue).symm⟩

end

end TopicSpec
