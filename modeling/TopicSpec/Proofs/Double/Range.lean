import Mathlib.Algebra.Order.Field.Power
import TopicSpec.Proofs.Double.Rounding

/-! # Where rounding leaves the range of the doubles

Numbers from `overflow` on are rounded to infinity, numbers up to `underflow` to zero. A quotient by
a whole number stays in range, whereas the reciprocal of a double near zero does not. -/

namespace TopicSpec.Double
set_option autoImplicit false

variable {v : ℚ} {p : Nat}

/-- The least number that is rounded to infinity. -/
def overflow : ℚ := 2 ^ 1024 - 2 ^ 970

/-- Half of the least magnitude, the greatest number that is rounded to zero. -/
def underflow : ℚ := 1 / 2 ^ 1075

/-- The greatest number that is rounded to a double with an infinite reciprocal. -/
def reciprocalOverflow : ℚ := (2 ^ 51 + 1) / 2 ^ 1075

/-! ## Overflow -/

theorem midpoint_last : (midpoint (patternLimit - 1) : ℚ) = 2 * (overflow * unitsPerOne) := by
  have hLast : patternLimit - 1 = 2045 * 2 ^ 52 + (2 ^ 53 - 1) := by decide
  have hSignificand : 2 * (2 ^ 53 - 1) + 1 = 2 ^ 54 - 1 := by decide
  rw [hLast, midpoint_binade (.inr (by decide)) (by decide), hSignificand, overflow,
    cast_unitsPerOne, Nat.cast_mul, Nat.cast_sub (by decide), Nat.cast_pow, Nat.cast_pow,
    Nat.cast_ofNat, Nat.cast_one]
  have hLess : (2 : ℚ) ^ 1024 = 2 ^ 54 * 2 ^ 970 := by rw [← pow_add]
  have hScale : (2 : ℚ) ^ 2045 = 2 * 2 ^ 970 * 2 ^ 1074 := by rw [← pow_succ', ← pow_add]
  rw [hLess, hScale]
  generalize (2 : ℚ) ^ 1074 = u
  generalize (2 : ℚ) ^ 970 = w
  ring

theorem isFinite_rounded_iff (hv : 0 ≤ v) : (rounded v).isFinite = true ↔ v < overflow := by
  have hFinite : (rounded v).isFinite = true ↔ ¬patternLimit - 1 < nearest v := by
    have hPositive : 0 < patternLimit := by decide
    unfold rounded
    split
    · exact iff_of_true rfl (by omega)
    · exact iff_of_false Bool.false_ne_true (by omega)
  have hOdd : (patternLimit - 1) % 2 = 1 := by decide
  rw [hFinite, lt_nearest_iff hv, midpoint_last, hOdd]
  simp only [and_true, ← le_iff_lt_or_eq, not_le]
  rw [mul_lt_mul_iff_right₀ two_pos, mul_lt_mul_iff_left₀ unitsPerOne_pos]

theorem rounded_eq_infinity (hv : 0 ≤ v) (h : overflow ≤ v) : rounded v = infinity false := by
  rcases rounded_cases v with ⟨hLess, hFinite⟩ | hInfinite
  · have hTrue : (rounded v).isFinite = true := by rw [hFinite, isFinite]
    exact absurd ((isFinite_rounded_iff hv).mp hTrue) (not_lt.mpr h)
  · exact hInfinite

theorem magnitude_lt_overflow (p : Fin patternLimit) : magnitude p < overflow := by
  rw [← isFinite_rounded_iff (magnitude_nonneg _), rounded_magnitude, isFinite]

theorem overflow_le_power : overflow ≤ 10 ^ 400 := by
  have hPower : (2 : ℚ) ^ 1024 ≤ 10 ^ 400 :=
    calc (2 : ℚ) ^ 1024 ≤ 2 ^ (3 * 400) := pow_le_pow_right₀ one_le_two (by decide)
      _ = 8 ^ 400 := by rw [pow_mul]; norm_num
      _ ≤ 10 ^ 400 := pow_le_pow_left₀ (by norm_num) (by norm_num) _
  have hLess : (0 : ℚ) ≤ 2 ^ 970 := pow_nonneg two_pos.le _
  exact (sub_le_self _ hLess).trans hPower

/-! ## Underflow -/

theorem midpoint_div_lt_iff :
    (midpoint p : ℚ) / 2 ^ 1075 < v ↔ midpoint p < 2 * (v * unitsPerOne) := by
  have hPower : (2 : ℚ) ^ 1075 = unitsPerOne * 2 := by rw [cast_unitsPerOne, ← pow_succ]
  rw [div_lt_iff₀ (pow_pos two_pos _), hPower, ← mul_assoc, mul_comm 2]

/-- A number is rounded beyond an even pattern from the midpoint behind it on. -/
theorem lt_nearest_of_even (hv : 0 ≤ v) (hp : p % 2 = 0) :
    p < nearest v ↔ (midpoint p : ℚ) / 2 ^ 1075 < v := by
  have hEven : ¬p % 2 = 1 := by omega
  rw [lt_nearest_iff hv, midpoint_div_lt_iff]
  exact or_iff_left fun h => hEven h.2

theorem nearest_pos_iff (hv : 0 ≤ v) : 0 < nearest v ↔ underflow < v := by
  have hMidpoint : midpoint 0 = 1 := by decide
  rw [lt_nearest_of_even hv (Nat.zero_mod 2), hMidpoint, Nat.cast_one, underflow]

theorem rounded_eq_zero (hv : 0 ≤ v) (h : v ≤ underflow) :
    rounded v = finite false ⟨0, by decide⟩ := by
  have hNearest : nearest v = 0 :=
    Nat.eq_zero_of_not_pos fun hPositive => not_lt.mpr h ((nearest_pos_iff hv).mp hPositive)
  simp [rounded, hNearest]

theorem rounded_zero : rounded 0 = finite false ⟨0, by decide⟩ :=
  rounded_eq_zero le_rfl (one_div_nonneg.mpr (pow_nonneg two_pos.le _))

theorem isPositive_rounded_iff (hv : 0 ≤ v) :
    (rounded v).isPositive = true ↔ underflow < v ∧ v < overflow := by
  rw [← isFinite_rounded_iff hv, ← nearest_pos_iff hv]
  rcases rounded_cases v with ⟨h, hRounded⟩ | hRounded
  · rw [hRounded, isFinite, and_iff_left rfl, isPositive, bne_iff_ne, Nat.pos_iff_ne_zero]
  · rw [hRounded]
    exact iff_of_false Bool.false_ne_true fun h => Bool.false_ne_true h.2

/-! ## Quotients -/

theorem isFinite_divideBy (p : Fin patternLimit) {d : Nat} (hd : 0 < d) :
    ((finite false p).divideBy d).isFinite = true := by
  have hUnits : 0 < unitsPerOne := Nat.cast_pos.mp unitsPerOne_pos
  have hDivisor : (1 : ℚ) ≤ d := Nat.one_le_cast.mpr hd
  have hQuotient : (units p / (unitsPerOne * d : Nat) : ℚ) = magnitude p / d := by
    rw [Nat.cast_mul, ← div_div, magnitude]
  rw [divideBy, ofRatio_eq _ (Nat.mul_pos hUnits hd), hQuotient,
    isFinite_rounded_iff (div_nonneg (magnitude_nonneg _) (Nat.cast_nonneg _))]
  exact (div_le_self (magnitude_nonneg _) hDivisor).trans_lt (magnitude_lt_overflow p)

theorem isFinite_divideBy_rounded (hv : 0 ≤ v) {d : Nat} (hd : 0 < d) :
    ((rounded v).divideBy d).isFinite = true ↔ v < overflow := by
  rw [← isFinite_rounded_iff hv]
  rcases rounded_cases v with ⟨h, hRounded⟩ | hRounded
  · rw [hRounded]
    exact iff_of_true (isFinite_divideBy _ hd) rfl
  · rw [hRounded]
    exact Iff.rfl

/-! ## Reciprocals -/

theorem overflow_le_reciprocal_iff {n : Nat} (hn : 0 < n) :
    overflow ≤ (unitsPerOne / n : ℚ) ↔ n ≤ 2 ^ 50 := by
  have hUnits : (unitsPerOne : ℚ) = (2 ^ 104 : Nat) * 2 ^ 970 := by
    rw [cast_unitsPerOne, Nat.cast_pow, Nat.cast_ofNat, ← pow_add]
  have hOverflow : overflow = (2 ^ 54 - 1 : Nat) * 2 ^ 970 := by
    rw [overflow, Nat.cast_sub (by decide), Nat.cast_pow, Nat.cast_ofNat, Nat.cast_one, sub_mul,
      one_mul, ← pow_add]
  have hPositive : (0 : ℚ) < 2 ^ 970 := pow_pos two_pos _
  rw [hUnits, hOverflow, le_div_iff₀ (Nat.cast_pos.mpr hn), mul_right_comm,
    mul_le_mul_iff_left₀ hPositive, ← Nat.cast_mul, Nat.cast_le]
  omega

theorem isFinite_reciprocal_iff {p : Fin patternLimit} (hp : p.val ≠ 0) :
    (finite false p).reciprocal.isFinite = true ↔ 2 ^ 50 < p.val := by
  have hUnits : 0 < units p := units_strictMono (Nat.pos_of_ne_zero hp)
  have hSame : units p ≤ units (2 ^ 50) ↔ p.val ≤ 2 ^ 50 := units_strictMono.le_iff_le
  rw [units_of_le (by decide : 2 ^ 50 ≤ 2 ^ 53)] at hSame
  rw [reciprocal, if_neg hUnits.ne', ofRatio_eq _ hUnits,
    isFinite_rounded_iff (div_nonneg (Nat.cast_nonneg _) (Nat.cast_nonneg _)), ← not_le,
    overflow_le_reciprocal_iff hUnits, hSame, not_le]

theorem isFinite_reciprocal_rounded (hv : 0 ≤ v) (h : (rounded v).isPositive = true) :
    (rounded v).reciprocal.isFinite = true ↔ reciprocalOverflow < v := by
  have hMidpoint : (midpoint (2 ^ 50) : ℚ) = 2 ^ 51 + 1 := by
    rw [midpoint, units_of_le (by decide), units_of_le (by decide)]
    norm_num
  rw [reciprocalOverflow, ← hMidpoint, ← lt_nearest_of_even hv (by decide)]
  rcases rounded_cases v with ⟨hLess, hRounded⟩ | hRounded
  · rw [hRounded] at h ⊢
    exact isFinite_reciprocal_iff (bne_iff_ne.mp h)
  · rw [hRounded] at h
    cases h

theorem power_le_reciprocalOverflow : (10 : ℚ) ^ (-320 : Int) ≤ reciprocalOverflow := by
  have hPower : (2 : ℚ) ^ 1024 ≤ 10 ^ 320 :=
    calc (2 : ℚ) ^ 1024 = (2 ^ 32) ^ 32 := by rw [← pow_mul]
      _ ≤ (10 ^ 10) ^ 32 := pow_le_pow_left₀ (by norm_num) (by norm_num) _
      _ = 10 ^ 320 := by rw [← pow_mul]
  have hPositive : (0 : ℚ) < 2 ^ 1024 := pow_pos two_pos _
  have hSplit : (2 : ℚ) ^ 1075 = 2 ^ 51 * 2 ^ 1024 := by rw [← pow_add]
  have hTen : (10 : ℚ) ^ (-320 : Int) = 1 / 10 ^ 320 := by
    rw [zpow_neg, one_div]
    rfl
  calc (10 : ℚ) ^ (-320 : Int) ≤ 1 / 2 ^ 1024 :=
        hTen.trans_le (one_div_le_one_div_of_le hPositive hPower)
    _ = 2 ^ 51 / 2 ^ 1075 := by
        rw [hSplit, div_mul_cancel_left₀ (pow_ne_zero _ two_ne_zero), one_div]
    _ ≤ reciprocalOverflow :=
        div_le_div_of_nonneg_right (le_add_of_nonneg_right zero_le_one) (pow_pos two_pos _).le

end TopicSpec.Double
