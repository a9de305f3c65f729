import TopicSpec.Proofs.Literal.Reading
import TopicSpec.Proofs.Scan.Settlement

/-! # Reading a number again

A number is read as a whole where nothing follows that could be a part of it. -/

namespace TopicSpec.Scan
set_option autoImplicit false

variable {word s t : List Char}

/-- The characters that a number could go on with. -/
def continuesNumber (c : Char) : Bool := c.isDigit || c == '.' || c == 'e' || c == 'E'

abbrev StopsNumber (s : List Char) : Prop := Stops continuesNumber s

theorem Stops.mono {accepts accepts' : Char → Bool} (h : Stops accepts s)
    (hMono : ∀ c, accepts' c = true → accepts c = true) : Stops accepts' s := by
  intro c hc
  cases hAccepts : accepts' c with
  | false => rfl
  | true =>
    have hStops := h c hc
    rw [hMono c hAccepts] at hStops
    cases hStops

theorem IsDigits.head (h : IsDigits word) : ∃ c more, word = c :: more ∧ c.isDigit = true := by
  obtain ⟨c, more, rfl⟩ := List.exists_cons_of_ne_nil h.1
  exact ⟨c, more, rfl, h.2 c List.mem_cons_self⟩

theorem IsNumber.head (h : IsNumber word) : ∃ c more, word = c :: more ∧ c.isDigit = true := by
  obtain ⟨whole, part, power, rfl, hWhole, -⟩ := h
  obtain ⟨c, more, rfl, hDigit⟩ := hWhole.head
  exact ⟨c, _, rfl, hDigit⟩

theorem exponent_append (h : IsExponent word) (hStops : Stops Char.isDigit t) :
    exponent (word ++ t) = .accept word t := by
  obtain ⟨mark, sign, digits, rfl, hMark, hSign, hDigits⟩ := h
  have hDigitsRead : someRun Char.isDigit (digits ++ t) = .accept digits t :=
    digits_eq_accept_iff.mpr ⟨rfl, hDigits, hStops⟩
  have hMarkRead : oneOf (fun c => c == 'e' || c == 'E') (mark :: (sign ++ digits) ++ t) =
      .accept mark (sign ++ (digits ++ t)) :=
    oneOf_eq_accept_iff.mpr ⟨by simp, by simpa using hMark⟩
  refine bind_eq_accept_iff.mpr ⟨mark, _, hMarkRead, ?_⟩
  rcases hSign with rfl | rfl | rfl
  · have hNoSign : Stops (fun c => c == '+' || c == '-') ([] ++ (digits ++ t)) := by
      obtain ⟨c, digits, rfl, hDigit⟩ := hDigits.head
      refine stops_cons_iff.mpr ?_
      simp only [Bool.or_eq_false_iff, beq_eq_false_iff_ne]
      constructor <;> rintro rfl <;> exact absurd hDigit (by decide)
    refine bind_eq_accept_iff.mpr ⟨none, _, optional_of_declines (declines_oneOf hNoSign), ?_⟩
    exact bind_eq_accept_iff.mpr ⟨digits, t, hDigitsRead, rfl⟩
  · refine bind_eq_accept_iff.mpr ⟨some '+', digits ++ t, rfl, ?_⟩
    exact bind_eq_accept_iff.mpr ⟨digits, t, hDigitsRead, rfl⟩
  · refine bind_eq_accept_iff.mpr ⟨some '-', digits ++ t, rfl, ?_⟩
    exact bind_eq_accept_iff.mpr ⟨digits, t, hDigitsRead, rfl⟩

theorem number_append (h : IsNumber word) (hStops : StopsNumber t) :
    number (word ++ t) = .accept word t := by
  obtain ⟨whole, part, power, rfl, hWhole, hPart, hPower⟩ := h
  have hDigit : Stops Char.isDigit t := hStops.mono fun c hc => by simp [continuesNumber, hc]
  have hPoint : Stops (· == '.') t := hStops.mono fun c hc => by simp [continuesNumber, hc]
  have hMark : Stops (fun c => c == 'e' || c == 'E') t := hStops.mono fun c hc => by
    simp only [continuesNumber, Bool.or_assoc, hc, Bool.or_true]
  have hPowerStops : Stops Char.isDigit (power ++ t) := by
    rcases hPower with rfl | hExponent
    · exact hDigit
    · obtain ⟨mark, sign, digits, rfl, rfl | rfl, -⟩ := hExponent <;>
        exact stops_cons_iff.mpr (by decide)
  have hWholeRead : someRun Char.isDigit (whole ++ part ++ power ++ t) =
      .accept whole (part ++ (power ++ t)) := by
    refine digits_eq_accept_iff.mpr ⟨by simp, hWhole, ?_⟩
    rcases hPart with rfl | ⟨digits, rfl, -⟩
    · exact hPowerStops
    · exact stops_cons_iff.mpr (by decide)
  have hPartRead : ∃ part?, optional fraction (part ++ (power ++ t)) = .accept part? (power ++ t) ∧
      part?.getD [] = part := by
    rcases hPart with rfl | hFraction
    · refine ⟨none, optional_of_declines (declines_bind (declines_oneOf ?_)), rfl⟩
      rcases hPower with rfl | ⟨mark, sign, digits, rfl, rfl | rfl, -⟩
      · exact hPoint
      · exact stops_cons_iff.mpr (by decide)
      · exact stops_cons_iff.mpr (by decide)
    · exact ⟨some part, optional_eq_accept_some_iff.mpr
        (fraction_eq_accept_iff.mpr ⟨rfl, hFraction, hPowerStops⟩), rfl⟩
  have hPowerRead : ∃ power?, optional exponent (power ++ t) = .accept power? t ∧
      power?.getD [] = power := by
    rcases hPower with rfl | hExponent
    · exact ⟨none, optional_of_declines (declines_bind (declines_oneOf hMark)), rfl⟩
    · exact ⟨some power, optional_eq_accept_some_iff.mpr (exponent_append hExponent hDigit), rfl⟩
  obtain ⟨part?, hPartRead, rfl⟩ := hPartRead
  obtain ⟨power?, hPowerRead, rfl⟩ := hPowerRead
  refine bind_eq_accept_iff.mpr ⟨whole, _, hWholeRead, ?_⟩
  refine bind_eq_accept_iff.mpr ⟨part?, _, hPartRead, ?_⟩
  exact bind_eq_accept_iff.mpr ⟨power?, t, hPowerRead, rfl⟩

end TopicSpec.Scan
