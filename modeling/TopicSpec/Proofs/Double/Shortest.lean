import TopicSpec.Double.Shortest
import TopicSpec.Proofs.Literal.Value

/-! # The text of a double

The decimal number that a double is written with is rounded to this double. Its text is a number of
the grammar that stands for it exactly, and has a point exactly if it is no whole number. -/

namespace TopicSpec.Double
open Scan
set_option autoImplicit false

/-! ## Digits -/

theorem isDigit_digitsOf (n : Nat) : ∀ c ∈ digitsOf n, c.isDigit = true :=
  fun _ hc => Nat.isDigit_of_mem_toDigits (by decide) (Nat.le_refl 10) hc

theorem isDigits_append {front back : List Char} (hFront : IsDigits front)
    (hBack : ∀ c ∈ back, c.isDigit = true) : IsDigits (front ++ back) := by
  refine ⟨List.append_ne_nil_of_left_ne_nil hFront.1 _, fun c hc => ?_⟩
  exact (List.mem_append.mp hc).elim (hFront.2 c) (hBack c)

theorem isDigit_replicate (n : Nat) : ∀ c ∈ List.replicate n '0', c.isDigit = true := by
  intro c hc
  rw [List.eq_of_mem_replicate hc]
  rfl

theorem ofDigits_concat_mod {front : List Char} {c : Char} (hDigit : c.isDigit = true)
    (hc : c ≠ '0') : ofDigits (front ++ [c]) % 10 ≠ 0 := by
  have hLast : ofDigits [c] = c.toNat - 48 := by simp [ofDigits]
  have hRange : 48 ≤ c.toNat ∧ c.toNat ≤ 57 := by
    simpa [Char.isDigit, UInt32.le_iff_toNat_le] using hDigit
  have hPositive : c.toNat ≠ 48 := fun h => hc (Char.toNat_inj.mp h)
  rw [ofDigits_append, hLast, List.length_singleton]
  omega

/-- Digits without the zeros at their end. -/
theorem exists_zeros {tail : List Char} (hTail : ∀ c ∈ tail, c.isDigit = true) :
    ∃ part n, (tail.reverse.dropWhile (· == '0')).reverse = part ∧
      tail = part ++ List.replicate n '0' ∧ (part = [] ∨ ofDigits part % 10 ≠ 0) := by
  have hSplit := List.takeWhile_append_dropWhile (p := (· == '0')) (l := tail.reverse)
  have hZeros : ∀ c ∈ tail.reverse.takeWhile (· == '0'), c = '0' := fun c hc =>
    beq_iff_eq.mp (List.all_eq_true.mp List.all_takeWhile c hc)
  refine ⟨_, (tail.reverse.takeWhile (· == '0')).length, rfl, ?_, ?_⟩
  · rw [← List.reverse_replicate, ← List.reverse_append, ← List.eq_replicate_of_mem hZeros, hSplit,
      List.reverse_reverse]
  · cases hDrop : tail.reverse.dropWhile (· == '0') with
    | nil => exact .inl rfl
    | cons c rest =>
      have hHead := List.head?_dropWhile_not (· == '0') tail.reverse
      rw [hDrop] at hHead
      have hMem : c ∈ tail := by
        rw [← List.mem_reverse, ← hSplit, hDrop]
        simp
      rw [List.reverse_cons]
      exact .inr (ofDigits_concat_mod (hTail c hMem) (by simpa using hHead))

/-! ## Decimal numbers in full -/

/-- What is behind the point ends with no zero, so the number is whole only without a point. -/
theorem eq_nil_iff_whole (front : List Char) {part : List Char}
    (hPart : part = [] ∨ ofDigits part % 10 ≠ 0) :
    part = [] ↔ ∃ n : Nat, (ofDigits front + ofDigits part / 10 ^ part.length : ℚ) = n := by
  constructor
  · rintro rfl
    exact ⟨ofDigits front, by simp [ofDigits]⟩
  · rintro ⟨n, hn⟩
    rcases hPart with rfl | hLast
    · rfl
    · cases part with
      | nil => rfl
      | cons c part =>
        rw [List.length_cons, pow_succ] at hn
        have hWhole : ofDigits front * 10 ^ part.length * 10 + ofDigits (c :: part) =
            10 ^ part.length * 10 * n := by
          field_simp at hn
          exact_mod_cast hn
        rw [Nat.mul_right_comm _ 10] at hWhole
        omega

/-- The digits with zeros before them, cut where the point stands. -/
theorem digits_cut (digits n : Nat) :
    ∃ front tail, List.replicate (n + 1 - (digitsOf digits).length) '0' ++ digitsOf digits =
        front ++ tail ∧ tail.length = n ∧ IsDigits front ∧ (∀ c ∈ tail, c.isDigit = true) ∧
      digits = 10 ^ n * ofDigits front + ofDigits tail := by
  generalize hPadded :
    List.replicate (n + 1 - (digitsOf digits).length) '0' ++ digitsOf digits = padded
  have hLength : n < padded.length := by
    rw [← hPadded, List.length_append, List.length_replicate]
    omega
  have hAll : ∀ c ∈ padded, c.isDigit = true := by
    intro c hc
    rw [← hPadded] at hc
    exact (List.mem_append.mp hc).elim (isDigit_replicate _ c) (isDigit_digitsOf digits c)
  have hValue : ofDigits padded = digits := by
    rw [← hPadded, ofDigits_append, ofDigits_replicate, ofDigits_digitsOf, Nat.mul_zero,
      Nat.zero_add]
  have hTail : (padded.drop (padded.length - n)).length = n := by
    rw [List.length_drop]
    omega
  refine ⟨padded.take (padded.length - n), padded.drop (padded.length - n),
    (List.take_append_drop _ _).symm, hTail, ⟨?_, ?_⟩, ?_, ?_⟩
  · refine List.ne_nil_of_length_pos ?_
    rw [List.length_take]
    omega
  · exact fun c hc => hAll c (List.mem_of_mem_take hc)
  · exact fun c hc => hAll c (List.mem_of_mem_drop hc)
  · have hSplit := ofDigits_append (padded.take (padded.length - n)) (padded.drop (padded.length - n))
    rwa [List.take_append_drop, hValue, hTail] at hSplit

theorem positional_neg (digits : Nat) {n : Nat} (hn : 0 < n) :
    ∃ front part, positional digits (-n) = front ++ (if part.isEmpty then [] else '.' :: part) ∧
      IsDigits front ∧ (∀ c ∈ part, c.isDigit = true) ∧ (part = [] ∨ ofDigits part % 10 ≠ 0) ∧
      (digits * 10 ^ (-n : Int) : ℚ) = ofDigits front + ofDigits part / 10 ^ part.length := by
  obtain ⟨front, tail, hPadded, hLength, hFront, hTail, hDigits⟩ := digits_cut digits n
  obtain ⟨part, zeros, hPart, hZeros, hLast⟩ := exists_zeros hTail
  refine ⟨front, part, ?_, hFront, ?_, hLast, ?_⟩
  · have hTake : (front ++ tail).take ((front ++ tail).length - n) = front := by simp [← hLength]
    have hDrop : (front ++ tail).drop ((front ++ tail).length - n) = tail := by simp [← hLength]
    rw [positional, if_neg (by omega), Int.neg_neg, Int.toNat_natCast]
    simp only [hPadded, hTake, hDrop, hPart]
    split <;> simp
  · exact fun c hc => hTail c (hZeros ▸ List.mem_append_left _ hc)
  · have hCount : part.length + zeros = n := by
      rw [← hLength, hZeros, List.length_append, List.length_replicate]
    rw [hDigits, hZeros, ofDigits_append, ofDigits_replicate, List.length_replicate, ← hCount,
      zpow_neg, zpow_natCast]
    push_cast
    field_simp
    ring

theorem positional_number (digits : Nat) (exponent : Int) :
    ∃ front part, positional digits exponent = front ++ part ∧ IsDigits front ∧
      (part = [] ∨ IsFraction part) ∧
      numberValue (positional digits exponent) = digits * 10 ^ exponent ∧
      (part = [] ↔ ∃ n : Nat, (digits * 10 ^ exponent : ℚ) = n) := by
  rcases lt_or_ge exponent 0 with hNegative | hNonneg
  · obtain ⟨n, rfl⟩ := Int.exists_eq_neg_ofNat (Int.le_of_lt hNegative)
    obtain ⟨front, part, hText, hFront, hPart, hLast, hValue⟩ :=
      positional_neg digits (n := n) (by omega)
    have hWhole := eq_nil_iff_whole front hLast
    rw [hText, hValue, ← hWhole]
    cases part with
    | nil =>
      refine ⟨front, [], rfl, hFront, .inl rfl, ?_, Iff.rfl⟩
      simpa [powerValue] using numberValue_append hFront (.inl rfl) (.inl rfl)
    | cons c part =>
      have hFraction : IsFraction ('.' :: c :: part) := ⟨_, rfl, List.cons_ne_nil _ _, hPart⟩
      refine ⟨front, '.' :: c :: part, rfl, hFront, .inr hFraction, ?_, by simp⟩
      simpa [powerValue] using numberValue_append hFront (.inr hFraction) (.inl rfl)
  · obtain ⟨n, rfl⟩ := Int.eq_ofNat_of_zero_le hNonneg
    have hText : IsDigits (digitsOf digits) := ⟨Nat.toDigits_ne_nil, isDigit_digitsOf digits⟩
    have hDigits := isDigits_append hText (isDigit_replicate n)
    have hPositional : positional digits n = digitsOf digits ++ List.replicate n '0' := by
      rw [positional, if_pos hNonneg, Int.toNat_natCast]
    have hValue : (ofDigits (digitsOf digits ++ List.replicate n '0') : ℚ) =
        digits * 10 ^ (n : Int) := by
      rw [ofDigits_append, ofDigits_digitsOf, ofDigits_replicate, List.length_replicate,
        zpow_natCast, Nat.add_zero, Nat.cast_mul, Nat.cast_pow, Nat.cast_ofNat, mul_comm]
    refine ⟨_, [], by rw [List.append_nil, hPositional], hDigits, .inl rfl, ?_, ?_⟩
    · rw [hPositional, numberValue_digits hDigits, hValue]
    · exact iff_of_true rfl ⟨_, hValue.symm⟩

/-! ## The decimal number of a double -/

variable {pattern : Fin patternLimit} {digits : Nat} {exponent : Int}

theorem rounded_of_readsBack (h : readsBack pattern digits exponent = true) :
    rounded (digits * 10 ^ exponent) = finite false pattern := by
  have hBits := beq_iff_eq.mp h
  rw [ofDecimal_eq] at hBits
  rcases rounded_cases (digits * 10 ^ exponent) with ⟨hLess, hRounded⟩ | hRounded
  · rw [hRounded] at hBits ⊢
    simp only [bits, Bool.toNat_false, Nat.zero_mul, Nat.zero_add, Option.some.injEq] at hBits
    exact congrArg (finite false) (Fin.ext hBits)
  · rw [hRounded] at hBits
    simp only [bits, Bool.toNat_false, Nat.zero_mul, Nat.zero_add, Option.some.injEq] at hBits
    exact absurd hBits pattern.isLt.ne'

theorem readsBack_of_onGrid? {p : Nat} (h : onGrid? p exponent = some digits) :
    readsBack p digits exponent = true := by
  unfold onGrid? at h
  dsimp only at h
  split at h
  · cases h
  · obtain rfl := Option.some.inj h
    assumption
  · obtain rfl := Option.some.inj h
    assumption
  · obtain rfl := Option.some.inj h
    split <;> assumption

theorem mul_five_pow (u : ℚ) (n : Nat) : u * 5 ^ n * 10 ^ (-n : Int) = u / 2 ^ n := by
  have hTen : (10 : ℚ) = 5 * 2 := by norm_num
  rw [zpow_neg, zpow_natCast, hTen, mul_pow]
  field_simp

/-- The digits of a magnitude without rounding. -/
theorem magnitude_eq (p : Nat) :
    ((units p * Nat.pow 5 1074 : Nat) * 10 ^ (-1074 : Int) : ℚ) = magnitude p := by
  rw [magnitude, cast_unitsPerOne, ← mul_five_pow]
  simp only [Nat.pow_eq, Nat.cast_mul, Nat.cast_pow, Nat.cast_ofNat]

/-- Digits are found for one of the exponents that are tried, or all digits are taken. -/
theorem shortest_cases (p : Nat) :
    (∃ n digits, n < 17 ∧ shortest p = (digits, decade p - (n + 1 : Nat)) ∧
      onGrid? p (decade p - (n + 1 : Nat)) = some digits) ∨
    shortest p = (units p * Nat.pow 5 1074, -1074) := by
  unfold shortest
  dsimp only
  cases hFound : (List.map (fun n => decade p - (n + 1 : Nat)) (List.range 17)).findSome?
      fun e => (onGrid? p e).map (·, e) with
  | none => exact .inr rfl
  | some found =>
    obtain ⟨e, hMem, hMap⟩ := List.exists_of_findSome?_eq_some hFound
    obtain ⟨n, hn, rfl⟩ := List.mem_map.mp hMem
    obtain ⟨digits, hGrid, rfl⟩ := Option.map_eq_some_iff.mp hMap
    exact .inl ⟨n, digits, List.mem_range.mp hn, rfl, hGrid⟩

theorem rounded_shortest (pattern : Fin patternLimit) :
    rounded ((shortest pattern).1 * 10 ^ (shortest pattern).2) = finite false pattern := by
  rcases shortest_cases pattern with ⟨n, digits, -, hShortest, hGrid⟩ | hShortest
  · rw [hShortest]
    exact rounded_of_readsBack (readsBack_of_onGrid? hGrid)
  · rw [hShortest, magnitude_eq, rounded_magnitude]

/-! ## Great doubles -/

theorem le_units_of_le_magnitude {p n : Nat} (h : (n : ℚ) ≤ magnitude p) :
    n * unitsPerOne ≤ units p := by
  have hScaled := mul_le_mul_of_nonneg_right h unitsPerOne_pos.le
  rw [magnitude_mul_unitsPerOne] at hScaled
  exact_mod_cast hScaled

theorem le_length_digitsOf {n d k : Nat} {z : Int} (hd : 0 < d) (h : 10 ^ 16 * d ≤ n) (hz : z = k) :
    17 ≤ (digitsOf (n * Nat.pow 10 k / d)).length - z := by
  have hLength : 16 + k < (digitsOf (n * Nat.pow 10 k / d)).length := by
    rw [← Nat.not_le, digitsOf, Nat.length_toDigits_le_iff (by decide) (by omega), Nat.not_lt,
      Nat.le_div_iff_mul_le hd, Nat.pow_add, Nat.mul_right_comm, Nat.pow_eq]
    exact Nat.mul_le_mul_right _ h
  omega

theorem le_decade {p : Nat} (h : (10 ^ 16 : Nat) ≤ magnitude p) : 17 ≤ decade p := by
  have hUnits := le_units_of_le_magnitude h
  have hPositive : 0 < unitsPerOne := Nat.cast_pos.mp unitsPerOne_pos
  simp only [decade]
  apply le_length_digitsOf hPositive hUnits
  rfl

/-- From here on, the magnitudes are whole numbers. -/
theorem exists_natCast_magnitude {p : Nat} (h : (2 ^ 53 : Nat) ≤ magnitude p) :
    ∃ n : Nat, magnitude p = n := by
  obtain ⟨e, s, rfl, hLow, hHigh⟩ := exists_binade p
  have hUnits := le_units_of_le_magnitude h
  rw [units_binade hLow hHigh.le] at hUnits
  have hExponent : 1074 ≤ e := by
    refine Nat.le_of_not_lt fun hLess => ?_
    have hPower : 2 ^ e ≤ unitsPerOne := by
      rw [← Nat.cast_le (α := ℚ), cast_unitsPerOne, Nat.cast_pow, Nat.cast_ofNat]
      exact pow_le_pow_right₀ one_le_two (Nat.le_of_lt hLess)
    have hBelow : s * 2 ^ e < 2 ^ 53 * unitsPerOne :=
      Nat.mul_lt_mul_of_lt_of_le' hHigh hPower (Nat.two_pow_pos e)
    exact absurd hUnits (Nat.not_le.mpr hBelow)
  refine ⟨s * 2 ^ (e - 1074), ?_⟩
  have hSplit : (2 : ℚ) ^ e = 2 ^ (e - 1074) * 2 ^ 1074 := by
    rw [← pow_add, Nat.sub_add_cancel hExponent]
  rw [magnitude, units_binade hLow hHigh.le, cast_unitsPerOne, Nat.cast_mul, Nat.cast_pow,
    Nat.cast_ofNat, hSplit, ← mul_assoc, mul_div_cancel_right₀ _ (pow_ne_zero _ two_ne_zero),
    Nat.cast_mul, Nat.cast_pow, Nat.cast_ofNat]

/-- A great double is written as a whole number: no digit behind the point is among the first
seventeen. -/
theorem exists_natCast_shortest {p : Nat} (h : (10 ^ 16 : Nat) ≤ magnitude p) :
    ∃ n : Nat, ((shortest p).1 * 10 ^ (shortest p).2 : ℚ) = n := by
  rcases shortest_cases p with ⟨n, digits, hn, hShortest, -⟩ | hShortest
  · have hDecade := le_decade h
    obtain ⟨k, hk⟩ : ∃ k : Nat, decade p - (n + 1 : Nat) = k :=
      Int.eq_ofNat_of_zero_le (by omega)
    refine ⟨digits * 10 ^ k, ?_⟩
    rw [hShortest, hk, zpow_natCast, Nat.cast_mul, Nat.cast_pow, Nat.cast_ofNat]
  · rw [hShortest, magnitude_eq]
    refine exists_natCast_magnitude (le_trans ?_ h)
    exact Nat.cast_le.mpr (by decide)

/-! ## Texts of doubles -/

theorem render_zero {p : Fin patternLimit} (hp : p.val = 0) : (finite false p).render = ['0'] := by
  simp [render, hp]

theorem rounded_render_zero {p : Fin patternLimit} (hp : p.val = 0) :
    rounded (numberValue (finite false p).render) = finite false p := by
  have hDigits : IsDigits ['0'] := ⟨List.cons_ne_nil _ _, List.all_eq_true.mp rfl⟩
  have hValue : numberValue ['0'] = 0 := (numberValue_digits hDigits).trans Nat.cast_zero
  rw [render_zero hp, hValue, rounded_zero]
  exact congrArg (finite false) (Fin.ext hp.symm)

theorem render_finite {p : Fin patternLimit} {found : Nat × Int} (hp : p.val ≠ 0)
    (hFound : shortest p = found) : (finite false p).render = positional found.1 found.2 := by
  rw [render, if_neg hp, hFound, if_neg Bool.false_ne_true, List.nil_append]

/-- A double is written as a number that is rounded to it, a great one without point. -/
theorem render_number (p : Fin patternLimit) :
    IsNumber (finite false p).render ∧
      rounded (numberValue (finite false p).render) = finite false p ∧
      ((10 ^ 16 : Nat) ≤ magnitude p → (finite false p).render.all Char.isDigit = true) := by
  by_cases hp : p.val = 0
  · have hDigits : IsDigits ['0'] := ⟨List.cons_ne_nil _ _, List.all_eq_true.mp rfl⟩
    refine ⟨?_, rounded_render_zero hp, fun _ => ?_⟩
    · rw [render_zero hp]
      exact ⟨['0'], [], [], rfl, hDigits, .inl rfl, .inl rfl⟩
    · rw [render_zero hp]
      rfl
  · obtain ⟨front, part, hText, hFront, hPart, hValue, hWhole⟩ :=
      positional_number (shortest p).1 (shortest p).2
    rw [render_finite hp rfl]
    refine ⟨?_, by rw [hValue, rounded_shortest], fun hGreat => ?_⟩
    · exact ⟨front, part, [], by rw [hText, List.append_nil], hFront, hPart, .inl rfl⟩
    · obtain rfl := hWhole.mpr (exists_natCast_shortest hGreat)
      rw [hText, List.append_nil]
      exact List.all_eq_true.mpr hFront.2

/-- The pattern of the limit of integers. -/
def limitPattern : Fin patternLimit := ⟨1150 * 2 ^ 52, by decide⟩

theorem magnitude_limitPattern : magnitude limitPattern = Literal.integerLimit := by
  have hUnits := units_binade (e := 1149) (s := 2 ^ 52) (.inr (Nat.le_refl _)) (by decide)
  have hPattern : limitPattern.val = 1149 * 2 ^ 52 + 2 ^ 52 := by decide
  have hLimit : (Literal.integerLimit : ℚ) = 2 ^ 127 := by
    simp only [Literal.integerLimit, Nat.pow_eq, Nat.cast_pow, Nat.cast_ofNat]
  rw [magnitude, hPattern, hUnits, hLimit, cast_unitsPerOne, div_eq_iff (pow_ne_zero _ two_ne_zero),
    Nat.cast_mul, Nat.cast_pow, Nat.cast_pow, Nat.cast_ofNat, ← pow_add, ← pow_add]

/-- The limit itself is written with seventeen digits that stand for less. -/
theorem not_isTooGreat_limitPattern : ¬IsTooGreat (finite false limitPattern).render := by
  rintro ⟨hAll, hLimit⟩
  have hLess : ofDigits (finite false limitPattern).render < Literal.integerLimit := by
    decide +kernel
  rw [numberValue_digits (isDigits_of_all (render_number limitPattern).1 hAll), Nat.cast_le] at hLimit
  exact absurd hLimit (Nat.not_le.mpr hLess)

theorem nearest_render (p : Fin patternLimit) : nearest (numberValue (finite false p).render) = p := by
  have hRounded := (render_number p).2.1
  rcases rounded_cases (numberValue (finite false p).render) with ⟨hLess, hFinite⟩ | hInfinite
  · rw [hRounded] at hFinite
    exact congrArg Fin.val (Double.finite.inj hFinite).2.symm
  · rw [hRounded] at hInfinite
    cases hInfinite

theorem isTooGreat_render_iff (p : Fin patternLimit) :
    IsTooGreat (finite false p).render ↔ (Literal.integerLimit : ℚ) < magnitude p := by
  have hNonneg := numberValue_nonneg (render_number p).1
  rw [← magnitude_limitPattern, magnitude_strictMono.lt_iff_lt]
  constructor
  · rintro ⟨hAll, hLimit⟩
    rw [← magnitude_limitPattern] at hLimit
    have hLeast := nearest_mono (magnitude_nonneg _) hLimit
    rw [nearest_magnitude, nearest_render] at hLeast
    refine lt_of_le_of_ne hLeast fun hSame => ?_
    obtain rfl : limitPattern = p := Fin.ext hSame
    exact not_isTooGreat_limitPattern ⟨hAll, magnitude_limitPattern ▸ hLimit⟩
  · intro hLess
    have hGreat : (10 ^ 16 : Nat) ≤ magnitude p := by
      have hMagnitude := magnitude_strictMono hLess
      rw [magnitude_limitPattern] at hMagnitude
      exact (Nat.cast_le.mpr (by decide)).trans hMagnitude.le
    refine ⟨(render_number p).2.2 hGreat, le_of_not_gt fun hBelow => ?_⟩
    rw [← magnitude_limitPattern] at hBelow
    have hMost := nearest_mono hNonneg hBelow.le
    rw [nearest_magnitude, nearest_render] at hMost
    exact absurd hLess (not_lt.mpr hMost)

end TopicSpec.Double
