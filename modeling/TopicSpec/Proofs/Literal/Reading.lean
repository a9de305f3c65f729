import Mathlib.Tactic.SplitIfs
import TopicSpec.Literal.Reading
import TopicSpec.Proofs.Conclusion
import TopicSpec.Proofs.Scan.Lexeme

/-! # Every lexeme has a value

The lexemes that the grammar reads as literals are read in turn: of all that can go wrong with
one, an integer beyond its limit alone is left. A number without sign is no less than zero, and so
is the time that is made of it. -/

namespace TopicSpec
open Scan
set_option autoImplicit false

/-! ## Unsigned doubles -/

namespace Double

/-- The double is a number without minus sign. -/
def IsUnsigned (x : Double) : Prop := x = .infinity false ∨ ∃ pattern, x = .finite false pattern

variable {x : Double}

theorem eq_infinity_of_isUnsigned (h : x.IsUnsigned) (hInfinite : x.isFinite = false) :
    x = .infinity false := by
  rcases h with rfl | ⟨pattern, rfl⟩
  · rfl
  · cases hInfinite

theorem isUnsigned_ofRatio (num den : Nat) : (ofRatio false num den).IsUnsigned := by
  unfold ofRatio
  dsimp only
  split
  · exact .inr ⟨_, rfl⟩
  · exact .inl rfl

theorem isUnsigned_ofInt (n : Nat) : (ofInt n).IsUnsigned := by
  have hSign : decide ((n : Int) < 0) = false := decide_eq_false (by omega)
  rw [ofInt, hSign]
  exact isUnsigned_ofRatio _ _

theorem isUnsigned_ofDecimal (digits : Nat) (exponent : Int) :
    (ofDecimal false digits exponent).IsUnsigned := by
  unfold ofDecimal
  split_ifs
  · exact isUnsigned_ofRatio _ _
  · exact .inl rfl
  · exact isUnsigned_ofRatio _ _
  · exact isUnsigned_ofRatio _ _
  · exact isUnsigned_ofRatio _ _

theorem isUnsigned_ofUnsigned? {s : List Char} (h : ofUnsigned? false s = some x) :
    x.IsUnsigned := by
  unfold ofUnsigned? at h
  dsimp only at h
  split at h
  all_goals
    obtain ⟨-, hMap⟩ := Option.ite_none_left_eq_some.mp h
    obtain ⟨e, -, rfl⟩ := Option.map_eq_some_iff.mp hMap
    exact isUnsigned_ofDecimal _ _

theorem isUnsigned_divideBy (h : x.IsUnsigned) (d : Nat) : (x.divideBy d).IsUnsigned := by
  rcases h with rfl | ⟨pattern, rfl⟩
  · exact .inl rfl
  · exact isUnsigned_ofRatio _ _

theorem isUnsigned_reciprocal (h : x.IsUnsigned) : x.reciprocal.IsUnsigned := by
  rcases h with rfl | ⟨pattern, rfl⟩
  · exact .inr ⟨_, rfl⟩
  · unfold reciprocal
    dsimp only
    split
    · exact .inl rfl
    · exact isUnsigned_ofRatio _ _

end Double

/-! ## Numbers -/

variable {word rest : List Char}

theorem splitSign_digits {digits : List Char} (h : IsDigits digits) (rest : List Char) :
    Double.splitSign (digits ++ rest) = (false, digits ++ rest) := by
  obtain ⟨hNonempty, hAll⟩ := h
  cases digits with
  | nil => exact absurd rfl hNonempty
  | cons c digits =>
    have hDigit := hAll c List.mem_cons_self
    have hMinus : c ≠ '-' := by rintro rfl; exact absurd hDigit (by decide)
    have hPlus : c ≠ '+' := by rintro rfl; exact absurd hDigit (by decide)
    unfold Double.splitSign
    split <;> simp_all

theorem exponent?_isSome (h : word = [] ∨ IsExponent word) : (Double.exponent? word).isSome := by
  rcases h with rfl | ⟨mark, sign, digits, rfl, hMark, hSign, hDigits⟩
  · rfl
  · have hSplit : (Double.splitSign (sign ++ digits)).2 = digits := by
      rcases hSign with rfl | rfl | rfl
      · simpa using congrArg Prod.snd (splitSign_digits hDigits [])
      · rfl
      · rfl
    have hMark' : (mark == 'e' || mark == 'E') = true := by simpa using hMark
    obtain ⟨hNonempty, hAll⟩ := hDigits
    have hAll' : digits.all Char.isDigit = true := List.all_eq_true.mpr hAll
    simp [Double.exponent?, hMark', hSplit, hNonempty, hAll']

theorem stops_digit_of_isExponent (h : word = [] ∨ IsExponent word) : Stops Char.isDigit word := by
  rcases h with rfl | ⟨mark, sign, digits, rfl, hMark, -, -⟩
  · exact stops_nil _
  · rcases hMark with rfl | rfl <;> exact stops_cons_iff.mpr (by decide)

/-- A number is cut at its point and at its exponent. -/
theorem ofUnsigned?_append (negative : Bool) {whole part power : List Char} (hWhole : IsDigits whole)
    (hPart : part = [] ∨ IsFraction part) (hPower : power = [] ∨ IsExponent power) :
    Double.ofUnsigned? negative (whole ++ part ++ power) =
      (Double.exponent? power).map fun e =>
        Double.ofDecimal negative (Double.ofDigits (whole ++ part.drop 1))
          (e - (part.drop 1).length) := by
  obtain ⟨hNonempty, hAll⟩ := hWhole
  have hStops := stops_digit_of_isExponent hPower
  rcases hPart with rfl | ⟨digits, rfl, hDigits⟩
  · obtain ⟨hTake, hDrop⟩ := takeWhile_dropWhile_iff.mpr ⟨rfl, hAll, hStops⟩
    rw [Double.ofUnsigned?, List.append_nil, hTake, hDrop]
    have hPoint : ∀ t, power ≠ '.' :: t := by
      rintro t rfl
      rcases hPower with hEmpty | ⟨mark, sign, digits, hEq, hMark, -, -⟩
      · cases hEmpty
      · obtain ⟨rfl, -⟩ := List.cons.inj hEq
        simp at hMark
    split
    rename_i a b hMatch
    split at hMatch
    · exact absurd rfl (hPoint _)
    · obtain ⟨rfl, rfl⟩ := Prod.mk.inj hMatch
      simp [hNonempty]
  · obtain ⟨hTake, hDrop⟩ := takeWhile_dropWhile_iff (s := whole ++ '.' :: (digits ++ power)).mpr
      ⟨rfl, hAll, stops_cons_iff.mpr (by decide)⟩
    obtain ⟨hTake', hDrop'⟩ := takeWhile_dropWhile_iff.mpr ⟨rfl, hDigits.2, hStops⟩
    have hText : whole ++ '.' :: digits ++ power = whole ++ '.' :: (digits ++ power) := by simp
    rw [Double.ofUnsigned?, hText, hTake, hDrop]
    simp [hTake', hDrop', hNonempty]

theorem ofUnsigned?_isSome (negative : Bool) (h : IsNumber word) :
    (Double.ofUnsigned? negative word).isSome := by
  obtain ⟨whole, part, power, rfl, hWhole, hPart, hPower⟩ := h
  rw [ofUnsigned?_append negative hWhole hPart hPower, Option.isSome_map]
  exact exponent?_isSome hPower

theorem toLower_of_isDigit {c : Char} (h : c.isDigit = true) : c.toLower = c := by
  simp only [Char.isDigit, Bool.and_eq_true, decide_eq_true_eq] at h
  refine dif_neg ?_
  rintro ⟨hUpper, -⟩
  have hOrder : 'A'.val ≤ '9'.val := UInt32.le_trans hUpper h.2
  exact absurd hOrder (by decide)

/-- The words for what is no finite number begin with a letter. -/
theorem ofText?_eq_ofUnsigned? (h : IsNumber word) :
    Double.ofText? word = Double.ofUnsigned? false word := by
  obtain ⟨whole, part, power, hWord, hWhole, -⟩ := h
  have hSplit : Double.splitSign word = (false, word) := by
    rw [hWord, List.append_assoc]
    exact splitSign_digits hWhole _
  obtain ⟨hNonempty, hAll⟩ := hWhole
  cases whole with
  | nil => exact absurd rfl hNonempty
  | cons c whole =>
    have hDigit := hAll c List.mem_cons_self
    have hLetter : ∀ d more, d.isDigit = false →
        ¬String.ofList (word.map Char.toLower) = String.ofList (d :: more) := by
      intro d more hd hEq
      rw [String.ofList_inj, hWord] at hEq
      simp only [List.cons_append, List.map_cons, List.cons.injEq, toLower_of_isDigit hDigit] at hEq
      rw [hEq.1, hd] at hDigit
      cases hDigit
    have hNan : ¬String.ofList (word.map Char.toLower) = "nan" := hLetter 'n' _ (by decide)
    have hInf : ¬String.ofList (word.map Char.toLower) = "inf" := hLetter 'i' _ (by decide)
    have hInfinity : ¬String.ofList (word.map Char.toLower) = "infinity" :=
      hLetter 'i' _ (by decide)
    simp [Double.ofText?, hSplit, hNan, hInf, hInfinity]

/-- A number that is read is an integer or a double, unless it is an integer beyond its limit. -/
theorem ofNumber_concludes {lexeme : String} (h : IsNumber lexeme.toList) :
    Concludes (fun l => ∃ x, l.toDouble? = some x ∧ x.IsUnsigned) SpecError.Substantive
      (Literal.ofNumber lexeme) := by
  obtain ⟨x, hx⟩ := Option.isSome_iff_exists.mp (ofUnsigned?_isSome false h)
  simp only [Literal.ofNumber, ofText?_eq_ofUnsigned? h, hx]
  split
  · split
    · exact ⟨_, rfl, Double.isUnsigned_ofInt _⟩
    · trivial
  · exact ⟨x, rfl, Double.isUnsigned_ofUnsigned? hx⟩

theorem amount_concludes {rule : Rule} {lexeme : String} (h : IsNumber lexeme.toList) :
    Concludes Double.IsUnsigned SpecError.Substantive (Literal.amount rule lexeme) := by
  apply concludes_bind (ofNumber_concludes h)
  rintro l ⟨x, hx, hUnsigned⟩
  rw [hx]
  exact concludes_pure hUnsigned

theorem timeAmount_concludes {lexeme unit : String} (h : IsNumber lexeme.toList)
    (hUnit : unit = "ms" ∨ unit = "s") :
    Concludes Double.IsUnsigned SpecError.Substantive (Literal.timeAmount lexeme unit) := by
  apply concludes_bind (amount_concludes h)
  intro n hUnsigned
  rcases hUnit with rfl | rfl
  · exact concludes_pure (Double.isUnsigned_divideBy hUnsigned 1000)
  · exact concludes_pure hUnsigned

theorem frequency_concludes {lexeme : String} (h : IsNumber lexeme.toList) :
    Concludes Double.IsUnsigned SpecError.Substantive (Literal.frequency lexeme "hz") := by
  apply concludes_bind (amount_concludes h)
  intro n hUnsigned
  simp only [ne_eq, not_true_eq_false, if_false]
  split
  · exact concludes_pure (Double.isUnsigned_reciprocal hUnsigned)
  · trivial

theorem ofBoolean_eq_ok {lexeme : String} (h : lexeme ∈ ["True", "False"]) :
    Literal.ofBoolean lexeme = .ok ⟨lexeme, .bool (lexeme == "True")⟩ := by
  simp only [List.mem_cons, List.not_mem_nil, or_false] at h
  rcases h with rfl | rfl <;> rfl

theorem ofQuoted_eq_ok {inner : List Char} :
    Literal.ofQuoted (String.ofList ('"' :: inner ++ ['"'])) =
      .ok ⟨String.ofList ('"' :: inner ++ ['"']), .text (String.ofList inner)⟩ := by
  simp [Literal.ofQuoted]

theorem ofConstant_isOk {lexeme : String} (h : lexeme ∈ ["PI", "INF", "NAN"]) :
    ∃ x, Literal.ofConstant lexeme = .ok ⟨lexeme, .double x⟩ := by
  simp only [List.mem_cons, List.not_mem_nil, or_false] at h
  rcases h with rfl | rfl | rfl
  · exact ⟨_, rfl⟩
  · exact ⟨_, rfl⟩
  · exact ⟨_, rfl⟩

/-! ## Lexemes are kept -/

theorem lexeme_of_ofNumber {lexeme : String} {l : Literal} (h : Literal.ofNumber lexeme = .ok l) :
    l.lexeme = lexeme := by
  unfold Literal.ofNumber at h
  dsimp only at h
  split at h
  · split at h
    · rw [← Except.ok.inj h]
    · cases h
  · split at h
    · rw [← Except.ok.inj h]
    · cases h

theorem lexeme_of_ofBoolean {lexeme : String} {l : Literal}
    (h : Literal.ofBoolean lexeme = .ok l) : l.lexeme = lexeme := by
  unfold Literal.ofBoolean at h
  split at h
  · rw [← Except.ok.inj h]
  · split at h
    · rw [← Except.ok.inj h]
    · cases h

theorem lexeme_of_ofConstant {lexeme : String} {l : Literal}
    (h : Literal.ofConstant lexeme = .ok l) : l.lexeme = lexeme := by
  unfold Literal.ofConstant at h
  split at h
  · rw [← Except.ok.inj h]
  · split at h
    · rw [← Except.ok.inj h]
    · split at h
      · rw [← Except.ok.inj h]
      · cases h

theorem lexeme_of_negate? {l negative : Literal} (h : l.negate? = some negative) :
    negative.lexeme = "-" ++ l.lexeme := by
  unfold Literal.negate? at h
  dsimp only at h
  split at h
  · split at h
    · cases h
    · rw [← Option.some.inj h]
  · rw [← Option.some.inj h]
  · cases h

theorem lexeme_of_ofQuoted {lexeme : String} {l : Literal} (h : Literal.ofQuoted lexeme = .ok l) :
    l.lexeme = lexeme := by
  unfold Literal.ofQuoted at h
  split at h
  · split at h
    · rw [← Except.ok.inj h]
    · cases h
  · cases h

end TopicSpec
