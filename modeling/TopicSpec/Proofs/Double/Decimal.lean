import TopicSpec.Double.Decimal
import TopicSpec.Double.Shortest
import TopicSpec.Proofs.Double.Range

/-! # The double nearest to a decimal number

No power of ten is formed for a decimal number far beyond the doubles, or far below them. What is
taken for it instead is what rounding gives, so that decimal numbers of one value are one double. -/

namespace TopicSpec.Double
set_option autoImplicit false

variable {v : ℚ} {digits : Nat} {exponent : Int}

theorem quotient_le_underflow {n : Nat} (h : 400 + digits.log2 < n) :
    (digits / 10 ^ n : ℚ) ≤ underflow := by
  have hDigits : (digits : ℚ) ≤ 2 ^ (digits.log2 + 1) := by
    exact_mod_cast Nat.le_of_lt Nat.lt_log2_self
  have hPower : (2 : ℚ) ^ (digits.log2 + 1) * 2 ^ 1075 ≤ 10 ^ n :=
    calc (2 : ℚ) ^ (digits.log2 + 1) * 2 ^ 1075 = 2 ^ (digits.log2 + 1076) := by rw [← pow_add]
      _ ≤ 2 ^ (3 * n) := pow_le_pow_right₀ one_le_two (by omega)
      _ = 8 ^ n := by rw [pow_mul]; norm_num
      _ ≤ 10 ^ n := pow_le_pow_left₀ (by norm_num) (by norm_num) _
  have hScaled := mul_le_mul_of_nonneg_right hDigits (pow_nonneg two_pos.le 1075)
  rw [underflow, div_le_div_iff₀ (pow_pos (by norm_num) n) (pow_pos two_pos _), one_mul]
  exact hScaled.trans hPower

theorem ofDecimal_eq (digits : Nat) (exponent : Int) :
    ofDecimal false digits exponent = rounded (digits * 10 ^ exponent) := by
  have hZero : ofRatio false 0 1 = rounded 0 := by simpa using ofRatio_eq 0 Nat.one_pos
  unfold ofDecimal
  by_cases hDigits : digits = 0
  · rw [if_pos hDigits, hZero, hDigits, Nat.cast_zero, zero_mul]
  have hPositive : (1 : ℚ) ≤ digits := Nat.one_le_cast.mpr (Nat.pos_of_ne_zero hDigits)
  rw [if_neg hDigits]
  obtain ⟨n, rfl | rfl⟩ := exponent.eq_nat_or_neg
  · rw [zpow_natCast, Int.toNat_natCast, if_neg (by omega : ¬(n : Int) < -(400 + digits.log2 : Nat)),
      if_pos (Int.natCast_nonneg n)]
    split
    · -- Beyond the greatest double whatever the digits are.
      rename_i hLarge
      have hPower : (10 : ℚ) ^ 400 ≤ 10 ^ n := pow_le_pow_right₀ (by norm_num) (by omega)
      have hValue : (10 : ℚ) ^ n ≤ digits * 10 ^ n :=
        le_mul_of_one_le_left (pow_nonneg (by norm_num) n) hPositive
      have hLimit := overflow_le_power.trans (hPower.trans hValue)
      exact (rounded_eq_infinity (by positivity) hLimit).symm
    · rw [ofRatio_eq _ Nat.one_pos, Nat.pow_eq, Nat.cast_mul, Nat.cast_pow, Nat.cast_ofNat,
        Nat.cast_one, div_one]
  · rw [if_neg (by omega : ¬400 < -(n : Int)), zpow_neg, zpow_natCast, ← div_eq_mul_inv]
    split
    · -- So small that all the digits do not make up for it.
      rename_i hSmall
      rw [hZero, rounded_zero]
      exact (rounded_eq_zero (by positivity) (quotient_le_underflow (by omega))).symm
    · split
      · obtain rfl : n = 0 := by omega
        rw [ofRatio_eq _ Nat.one_pos]
        simp
      · rw [Int.neg_neg, Int.toNat_natCast, Nat.pow_eq, ofRatio_eq _ (Nat.pow_pos (by decide)),
          Nat.cast_pow, Nat.cast_ofNat]

/-! ## Digits -/

theorem ofDigits_append (front back : List Char) :
    ofDigits (front ++ back) = 10 ^ back.length * ofDigits front + ofDigits back :=
  (Nat.ofDigitChars_append 0).trans Nat.ofDigitChars_eq_ofDigitChars_zero

theorem ofDigits_replicate (n : Nat) : ofDigits (List.replicate n '0') = 0 :=
  Nat.ofDigitChars_replicate_zero.trans (Nat.mul_zero _)

theorem ofDigits_digitsOf (n : Nat) : ofDigits (digitsOf n) = n :=
  Nat.ofDigitChars_ten_toDigits

end TopicSpec.Double
