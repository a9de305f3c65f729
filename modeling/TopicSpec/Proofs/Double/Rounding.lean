import Mathlib.Algebra.Order.Field.Basic
import Mathlib.Data.Rat.Cast.Order
import Mathlib.Tactic.Linarith
import Mathlib.Tactic.Ring
import TopicSpec.Double.Basic

/-! # Rounding to the nearest double

Which pattern a number is rounded to is told by the midpoints between neighbouring patterns: the
pattern found lies above another one if the number lies above the midpoint behind that one, or on
it and the pattern is odd. That rounding keeps the order and leaves the doubles themselves as they
are follows from this. -/

namespace TopicSpec.Double
set_option autoImplicit false

variable {a b m p q num den : Nat} {v w : ℚ}

theorem lt_divideToEven_iff (hb : 0 < b) :
    m < divideToEven a b ↔ (2 * m + 1) * b < 2 * a ∨ (2 * m + 1) * b = 2 * a ∧ m % 2 = 1 := by
  have hDiv : b * (a / b) + a % b = a := Nat.div_add_mod a b
  have hMod : a % b < b := Nat.mod_lt a hb
  have hExpand : (2 * m + 1) * b = 2 * (b * m) + b := by
    rw [Nat.add_mul, Nat.one_mul, Nat.mul_assoc, Nat.mul_comm m b]
  have hOrder : m < a / b ∧ b * m + b ≤ b * (a / b) ∨ m = a / b ∧ b * m = b * (a / b) ∨
      a / b < m ∧ b * (a / b) + b ≤ b * m := by
    rcases Nat.lt_trichotomy m (a / b) with h | h | h
    · exact .inl ⟨h, Nat.mul_le_mul_left b h⟩
    · exact .inr (.inl ⟨h, by rw [h]⟩)
    · exact .inr (.inr ⟨h, Nat.mul_le_mul_left b h⟩)
  unfold divideToEven
  split
  · omega
  · split <;> omega

theorem divideToEven_le (hb : 0 < b) (h : a ≤ m * b) : divideToEven a b ≤ m := by
  refine Nat.le_of_not_lt fun hLess => ?_
  have hMidpoint := (lt_divideToEven_iff hb).mp hLess
  rw [Nat.add_mul, Nat.mul_assoc] at hMidpoint
  omega

theorem le_divideToEven (hb : 0 < b) (h : m * b ≤ a) : m ≤ divideToEven a b := by
  cases m with
  | zero => exact Nat.zero_le _
  | succ m =>
    refine (lt_divideToEven_iff hb).mpr (.inl ?_)
    rw [Nat.add_mul] at h
    rw [Nat.add_mul, Nat.mul_assoc]
    omega

/-! ## The patterns of one exponent -/

theorem units_binade {e s : Nat} (hLow : e = 0 ∨ 2 ^ 52 ≤ s) (hHigh : s ≤ 2 ^ 53) :
    units (e * 2 ^ 52 + s) = s * 2 ^ e := by
  unfold units
  simp only [Nat.pow_eq]
  by_cases hSmall : s < 2 ^ 52
  · obtain rfl : e = 0 := by omega
    rw [if_pos (by omega)]
    omega
  · rw [if_neg (by omega)]
    by_cases hCarry : s = 2 ^ 53
    · have hDiv : (e * 2 ^ 52 + s) / 2 ^ 52 - 1 = e + 1 := by omega
      have hMod : (e * 2 ^ 52 + s) % 2 ^ 52 = 0 := by omega
      rw [hDiv, hMod, hCarry, Nat.pow_succ]
      omega
    · have hDiv : (e * 2 ^ 52 + s) / 2 ^ 52 - 1 = e := by omega
      have hMod : 2 ^ 52 + (e * 2 ^ 52 + s) % 2 ^ 52 = s := by omega
      rw [hDiv, hMod]

theorem units_of_le (h : q ≤ 2 ^ 53) : units q = q := by
  simpa using units_binade (.inl rfl) h

theorem exists_binade (q : Nat) :
    ∃ e s, q = e * 2 ^ 52 + s ∧ (e = 0 ∨ 2 ^ 52 ≤ s) ∧ s < 2 ^ 53 := by
  by_cases hSmall : q < 2 ^ 52
  · exact ⟨0, q, by omega, .inl rfl, by omega⟩
  · exact ⟨q / 2 ^ 52 - 1, 2 ^ 52 + q % 2 ^ 52, by omega, by omega, by omega⟩

theorem units_strictMono : StrictMono units := by
  apply strictMono_nat_of_lt_succ
  intro q
  obtain ⟨e, s, rfl, hLow, hHigh⟩ := exists_binade q
  rw [Nat.add_assoc, units_binade hLow (by omega), units_binade (by omega) (by omega)]
  exact Nat.mul_lt_mul_of_pos_right (Nat.lt_succ_self s) (Nat.two_pow_pos e)

/-! ## Midpoints -/

/-- The midpoint between a pattern and the next, in halves of a unit. -/
def midpoint (q : Nat) : Nat := units q + units (q + 1)

theorem midpoint_binade {e s : Nat} (hLow : e = 0 ∨ 2 ^ 52 ≤ s) (hHigh : s < 2 ^ 53) :
    midpoint (e * 2 ^ 52 + s) = (2 * s + 1) * 2 ^ e := by
  rw [midpoint, Nat.add_assoc, units_binade hLow (by omega), units_binade (by omega) (by omega),
    ← Nat.add_mul]
  congr 1
  omega

theorem midpoint_lt (h : q < p) : midpoint q < 2 * units p := by
  have hBelow : units q < units p := units_strictMono h
  have hNext : units (q + 1) ≤ units p := units_strictMono.monotone h
  unfold midpoint
  omega

theorem lt_midpoint (h : p ≤ q) : 2 * units p < midpoint q := by
  have hBelow : units p ≤ units q := units_strictMono.monotone h
  have hNext : units p < units (q + 1) := units_strictMono (Nat.lt_succ_of_le h)
  unfold midpoint
  omega

/-- The exponent puts the significand among those of one binade. -/
theorem exponent_bounds (hDen : 0 < den) :
    a < 2 ^ 53 * (den * 2 ^ ((a / den).log2 - 52)) ∧
      ((a / den).log2 - 52 = 0 ∨ 2 ^ 52 * (den * 2 ^ ((a / den).log2 - 52)) ≤ a) := by
  have hSplit : ∀ k e : Nat, 2 ^ k * (den * 2 ^ e) = 2 ^ (k + e) * den := by
    intro k e
    rw [Nat.pow_add]
    ac_rfl
  rw [hSplit, hSplit, ← Nat.div_lt_iff_lt_mul hDen, ← Nat.le_div_iff_mul_le hDen]
  generalize a / den = n
  constructor
  · exact Nat.lt_of_lt_of_le Nat.lt_log2_self (Nat.pow_le_pow_right (by omega) (by omega))
  · by_cases hSmall : n.log2 ≤ 52
    · exact .inl (by omega)
    · have hPositive : n ≠ 0 := by
        rintro rfl
        exact hSmall (by decide)
      have hExponent : n.log2 = 52 + (n.log2 - 52) := by omega
      exact .inr (hExponent ▸ Nat.log2_self_le hPositive)

theorem lt_nearestPattern_iff (hDen : 0 < den) :
    q < nearestPattern num den ↔ midpoint q * den < 2 * (num * unitsPerOne) ∨
      midpoint q * den = 2 * (num * unitsPerOne) ∧ q % 2 = 1 := by
  unfold nearestPattern
  generalize num * unitsPerOne = a
  simp only [Nat.pow_eq]
  obtain ⟨hHigh, hLow⟩ := exponent_bounds (a := a) hDen
  generalize (a / den).log2 - 52 = e at hHigh hLow ⊢
  have hPositive : 0 < den * 2 ^ e := Nat.mul_pos hDen (Nat.two_pow_pos e)
  have hMost := divideToEven_le hPositive (Nat.le_of_lt hHigh)
  have hLeast := hLow.imp_right (le_divideToEven hPositive)
  have hScale : ∀ k, k * 2 ^ e * den = k * (den * 2 ^ e) := by
    intro k
    ac_rfl
  rcases Nat.lt_or_ge q (e * 2 ^ 52 + 2 ^ 53) with hBelow | hAbove
  · by_cases hInside : ∃ s, q = e * 2 ^ 52 + s ∧ (e = 0 ∨ 2 ^ 52 ≤ s)
    · -- Among the patterns of the exponent the significands decide.
      obtain ⟨s, rfl, hSignificand⟩ := hInside
      rw [midpoint_binade hSignificand (by omega), hScale, Nat.add_lt_add_iff_left,
        lt_divideToEven_iff hPositive]
      have hParity : (e * 2 ^ 52 + s) % 2 = s % 2 := by omega
      rw [hParity]
    · -- Patterns of lesser exponents lie below the number, and below what is found.
      have hLesser : q < e * 2 ^ 52 + 2 ^ 52 := by
        refine Nat.lt_of_not_le fun h => hInside ⟨q - e * 2 ^ 52, by omega, by omega⟩
      have hExponent : e ≠ 0 := by
        rintro rfl
        exact hInside ⟨q, by omega, .inl rfl⟩
      have hMidpoint := midpoint_lt hLesser
      rw [units_binade (.inr (Nat.le_refl _)) (by omega)] at hMidpoint
      have hScaled := Nat.mul_lt_mul_of_pos_right hMidpoint hDen
      rw [Nat.mul_assoc 2, hScale] at hScaled
      have hNumber := hLow.resolve_left hExponent
      have hFound := hLeast.resolve_left hExponent
      exact iff_of_true (by omega) (.inl (by omega))
  · -- Patterns of greater exponents lie above both.
    have hMidpoint := lt_midpoint hAbove
    rw [units_binade (.inr (by omega)) (Nat.le_refl _)] at hMidpoint
    have hScaled := Nat.mul_lt_mul_of_pos_right hMidpoint hDen
    rw [Nat.mul_assoc 2, hScale] at hScaled
    exact iff_of_false (by omega) (by omega)

/-! ## Rational numbers -/

/-- The magnitude that a pattern stands for. -/
def magnitude (p : Nat) : ℚ := units p / unitsPerOne

/-- The pattern nearest to a number that is not negative. -/
def nearest (v : ℚ) : Nat := nearestPattern v.num.natAbs v.den

/-- The double nearest to a number that is not negative. -/
def rounded (v : ℚ) : Double :=
  if h : nearest v < patternLimit then finite false ⟨nearest v, h⟩ else infinity false

theorem cast_unitsPerOne : (unitsPerOne : ℚ) = 2 ^ 1074 := by
  simp only [unitsPerOne, Nat.pow_eq, Nat.cast_pow, Nat.cast_ofNat]

theorem rounded_cases (v : ℚ) :
    (∃ h : nearest v < patternLimit, rounded v = finite false ⟨nearest v, h⟩) ∨
      rounded v = infinity false := by
  unfold rounded
  split
  · rename_i h
    exact .inl ⟨h, rfl⟩
  · exact .inr rfl

theorem unitsPerOne_pos : (0 : ℚ) < unitsPerOne := by
  rw [cast_unitsPerOne]
  exact pow_pos two_pos _

theorem magnitude_mul_unitsPerOne (p : Nat) : magnitude p * unitsPerOne = units p :=
  div_mul_cancel₀ _ unitsPerOne_pos.ne'

theorem magnitude_nonneg (p : Nat) : 0 ≤ magnitude p :=
  div_nonneg (Nat.cast_nonneg _) unitsPerOne_pos.le

theorem magnitude_strictMono : StrictMono magnitude := fun _ _ h =>
  div_lt_div_of_pos_right (Nat.cast_lt.mpr (units_strictMono h)) unitsPerOne_pos

theorem lt_nearestPattern_iff_of_eq (hDen : 0 < den) (hValue : v * den = num) :
    q < nearestPattern num den ↔ midpoint q < 2 * (v * unitsPerOne) ∨
      midpoint q = 2 * (v * unitsPerOne) ∧ q % 2 = 1 := by
  have hDen' : (0 : ℚ) < den := Nat.cast_pos.mpr hDen
  have hNumber : ((2 * (num * unitsPerOne) : Nat) : ℚ) = 2 * (v * unitsPerOne) * den := by
    rw [Nat.cast_mul, Nat.cast_mul, ← hValue, Nat.cast_ofNat]
    ring
  rw [lt_nearestPattern_iff hDen, ← Nat.cast_lt (α := ℚ), ← Nat.cast_inj (R := ℚ), hNumber,
    Nat.cast_mul, mul_lt_mul_iff_left₀ hDen', mul_left_inj' hDen'.ne']

theorem lt_nearest_iff (hv : 0 ≤ v) :
    q < nearest v ↔ midpoint q < 2 * (v * unitsPerOne) ∨
      midpoint q = 2 * (v * unitsPerOne) ∧ q % 2 = 1 := by
  apply lt_nearestPattern_iff_of_eq v.den_pos
  have hNum : ((v.num.natAbs : Int) : ℚ) = v.num :=
    congrArg Int.cast (Int.natAbs_of_nonneg (Rat.num_nonneg.mpr hv))
  rw [Rat.mul_den_eq_num, ← hNum, Int.cast_natCast]

theorem nearestPattern_eq (num : Nat) (hDen : 0 < den) :
    nearestPattern num den = nearest (num / den) := by
  have hValue : (num / den : ℚ) * den = num := div_mul_cancel₀ _ (Nat.cast_pos.mpr hDen).ne'
  apply eq_of_forall_lt_iff
  intro q
  rw [lt_nearestPattern_iff_of_eq hDen hValue,
    lt_nearest_iff (div_nonneg (Nat.cast_nonneg _) (Nat.cast_nonneg _))]

theorem ofRatio_eq (num : Nat) (hDen : 0 < den) :
    ofRatio false num den = rounded (num / den) := by
  simp only [ofRatio, rounded, nearestPattern_eq num hDen]

theorem nearest_mono (hv : 0 ≤ v) (h : v ≤ w) : nearest v ≤ nearest w := by
  apply le_of_forall_lt
  intro q hq
  have hUnits : 2 * (v * unitsPerOne) ≤ 2 * (w * unitsPerOne) := by
    have := mul_le_mul_of_nonneg_right h unitsPerOne_pos.le
    linarith
  refine (lt_nearest_iff (hv.trans h)).mpr ?_
  rcases (lt_nearest_iff hv).mp hq with hLess | ⟨hSame, hOdd⟩
  · exact .inl (hLess.trans_le hUnits)
  · exact (hSame.trans_le hUnits).lt_or_eq.imp_right fun hEq => ⟨hEq, hOdd⟩

theorem nearest_magnitude (p : Nat) : nearest (magnitude p) = p := by
  apply eq_of_forall_lt_iff
  intro q
  have hTwice : 2 * (magnitude p * unitsPerOne) = ((2 * units p : Nat) : ℚ) := by
    rw [magnitude_mul_unitsPerOne, Nat.cast_mul, Nat.cast_ofNat]
  rw [lt_nearest_iff (magnitude_nonneg p), hTwice, Nat.cast_lt, Nat.cast_inj]
  rcases Nat.lt_or_ge q p with h | h
  · exact iff_of_true (.inl (midpoint_lt h)) h
  · have hAbove := lt_midpoint h
    exact iff_of_false (by omega) (by omega)

theorem rounded_magnitude (p : Fin patternLimit) : rounded (magnitude p) = finite false p := by
  simp [rounded, nearest_magnitude]

end TopicSpec.Double
