import TopicSpec.Binding
import TopicSpec.Proofs.Conclusion
import TopicSpec.Proofs.Expr.Induction

/-! # Occurrences

A subexpression occurs under the variables of the quantifiers around it. A quantifier has its body
inside and its domain outside. What is free and what is bound is said of occurrences here; the
functions of the checks are shown to agree with it. -/

namespace TopicSpec.Expr
set_option autoImplicit false

/-- The direct subexpressions, each with the variable that is bound in it. -/
def parts : Expr → List (Option String × Expr)
  | quantified _ name domain body => [(none, domain), (some name, body)]
  | e => e.children.map (none, ·)

/-- The third expression occurs in the first, under the given variables. -/
inductive Within : Expr → List String → Expr → Prop where
  | self (e : Expr) : Within e [] e
  | inside {e inner found : Expr} {name? : Option String} {vars : List String} :
    (name?, inner) ∈ e.parts → Within inner vars found → Within e (name?.toList ++ vars) found

/-- The name occurs where no quantifier binds it. -/
def Free (e : Expr) (name : String) : Prop := ∃ vars, Within e vars (.var name) ∧ name ∉ vars

/-- A quantifier under the given variables binds the name. -/
def Binds (e : Expr) (vars : List String) (name : String) : Prop :=
  ∃ quantifier domain body, Within e vars (.quantified quantifier name domain body)

variable {e : Expr} {aliases bound vars : List String} {name : String}

theorem within_iff {found : Expr} :
    Within e vars found ↔ vars = [] ∧ found = e ∨
      ∃ part ∈ e.parts, ∃ inner, vars = part.1.toList ++ inner ∧ Within part.2 inner found := by
  constructor
  · intro h
    cases h with
    | self => exact .inl ⟨rfl, rfl⟩
    | inside hPart h => exact .inr ⟨_, hPart, _, rfl, h⟩
  · rintro (⟨rfl, rfl⟩ | ⟨⟨name?, part⟩, hPart, inner, rfl, h⟩)
    · exact .self _
    · exact .inside hPart h

theorem free_iff :
    e.Free name ↔ e = .var name ∨ ∃ part ∈ e.parts, part.2.Free name ∧ part.1 ≠ some name := by
  constructor
  · rintro ⟨vars, hWithin, hFree⟩
    rcases within_iff.mp hWithin with ⟨-, h⟩ | ⟨part, hPart, inner, rfl, hInner⟩
    · exact .inl h.symm
    · refine .inr ⟨part, hPart, ⟨inner, hInner, fun h => hFree (by simp [h])⟩, ?_⟩
      intro h
      exact hFree (by simp [h])
  · rintro (rfl | ⟨⟨name?, part⟩, hPart, ⟨inner, hInner, hFree⟩, hName⟩)
    · exact ⟨[], .self _, by simp⟩
    · refine ⟨name?.toList ++ inner, .inside hPart hInner, ?_⟩
      simpa using ⟨hName, hFree⟩

theorem free_of_mem_parts {part : Expr} (hPart : (none, part) ∈ e.parts) (hFree : part.Free name) :
    e.Free name := free_iff.mpr (.inr ⟨_, hPart, hFree, by simp⟩)

theorem binds_iff :
    e.Binds vars name ↔ vars = [] ∧ (∃ quantifier domain body,
        e = .quantified quantifier name domain body) ∨
      ∃ part ∈ e.parts, ∃ inner, vars = part.1.toList ++ inner ∧ part.2.Binds inner name := by
  constructor
  · rintro ⟨quantifier, domain, body, hWithin⟩
    rcases within_iff.mp hWithin with ⟨rfl, h⟩ | ⟨part, hPart, inner, rfl, hInner⟩
    · exact .inl ⟨rfl, quantifier, domain, body, h.symm⟩
    · exact .inr ⟨part, hPart, inner, rfl, quantifier, domain, body, hInner⟩
  · rintro (⟨rfl, quantifier, domain, body, rfl⟩ | ⟨⟨name?, part⟩, hPart, inner, rfl, h⟩)
    · exact ⟨quantifier, domain, body, .self _⟩
    · obtain ⟨quantifier, domain, body, hInner⟩ := h
      exact ⟨quantifier, domain, body, .inside hPart hInner⟩

/-- Induction that does not tell the forms of expressions apart. -/
theorem induct_parts {motive : Expr → Prop}
    (step : ∀ e : Expr, (∀ part ∈ e.parts, motive part.2) → motive e) (e : Expr) : motive e := by
  induction e with
  | vacuous | literal | var | this => exact step _ (by simp [parts, children])
  | field base _ ih | call _ base ih | unary _ base ih =>
    exact step _ (by simpa [parts, children] using ih)
  | index a b ihA ihB | range a b _ _ ihA ihB | binary _ a b ihA ihB =>
    exact step _ (by simpa [parts, children] using ⟨ihA, ihB⟩)
  | set members ih => exact step _ (by simpa [parts, children] using ih)
  | quantified _ _ domain body ihDomain ihBody =>
    exact step _ (by simpa [parts] using ⟨ihDomain, ihBody⟩)

/-! ## Free names -/

theorem mem_freeOccurrences_iff_parts :
    name ∈ e.freeOccurrences ↔ e = .var name ∨
      ∃ part ∈ e.parts, name ∈ part.2.freeOccurrences ∧ part.1 ≠ some name := by
  cases e with
  | var found => simp [freeOccurrences, parts, children, eq_comm (a := name)]
  | quantified _ bound domain body =>
    simp [freeOccurrences, parts, eq_comm (a := name)]
  | set members =>
    rw [freeOccurrences, freeOccurrencesAll_eq_flatMap, List.mem_flatMap]
    constructor
    · rintro ⟨m, hMember, hOccurs⟩
      exact .inr ⟨(none, m), List.mem_map_of_mem hMember, hOccurs, by simp⟩
    · rintro (h | ⟨part, hPart, hOccurs, -⟩)
      · cases h
      · obtain ⟨m, hMember, rfl⟩ := List.mem_map.mp hPart
        exact ⟨m, hMember, hOccurs⟩
  | _ => simp [freeOccurrences, parts, children]

theorem mem_freeOccurrences_iff : name ∈ e.freeOccurrences ↔ e.Free name := by
  induction e using induct_parts with
  | step e ih =>
    rw [mem_freeOccurrences_iff_parts, free_iff]
    refine or_congr_right ?_
    constructor
    · rintro ⟨part, hPart, hOccurs, hName⟩
      exact ⟨part, hPart, (ih part hPart).mp hOccurs, hName⟩
    · rintro ⟨part, hPart, hFree, hName⟩
      exact ⟨part, hPart, (ih part hPart).mpr hFree, hName⟩

/-! ## Bound names -/

theorem checkShadowingAll_eq_ok_iff {members : List Expr} :
    checkShadowingAll aliases bound members = .ok () ↔
      ∀ m ∈ members, m.checkShadowing aliases bound = .ok () := by
  induction members with
  | nil => simp [checkShadowingAll]
  | cons m members ih => simp [checkShadowingAll, seq_eq_ok_iff, ih]

theorem checkShadowing_quantified_eq_ok_iff {quantifier : Quantifier} {domain body : Expr} :
    (quantified quantifier name domain body).checkShadowing aliases bound = .ok () ↔
      domain.checkShadowing aliases bound = .ok () ∧ name ∉ aliases ∧ name ∉ bound ∧
        body.checkShadowing aliases (name :: bound) = .ok () := by
  rw [checkShadowing, seq_eq_ok_iff]
  refine and_congr_right fun _ => ?_
  by_cases h : name ∈ aliases ∨ name ∈ bound
  · have hHidden : (aliases.contains name || bound.contains name) = true := by simpa using h
    simp only [hHidden, if_true]
    constructor
    · intro hThrow
      cases hThrow
    · rintro ⟨hAlias, hBound, -⟩
      exact absurd h (not_or.mpr ⟨hAlias, hBound⟩)
  · have hHidden : (aliases.contains name || bound.contains name) = false := by simpa using h
    obtain ⟨hAlias, hBound⟩ := not_or.mp h
    simp only [hHidden, hAlias, hBound, Bool.false_eq_true, if_false, not_false_eq_true, true_and]

theorem checkShadowing_eq_ok_iff_parts :
    e.checkShadowing aliases bound = .ok () ↔
      (∀ quantifier name domain body, e = .quantified quantifier name domain body →
        name ∉ aliases ∧ name ∉ bound) ∧
      ∀ part ∈ e.parts, part.2.checkShadowing aliases (part.1.toList ++ bound) = .ok () := by
  cases e with
  | quantified quantifier name domain body =>
    rw [checkShadowing_quantified_eq_ok_iff]
    constructor
    · rintro ⟨hDomain, hAlias, hBound, hBody⟩
      refine ⟨?_, by simpa [parts] using ⟨hDomain, hBody⟩⟩
      rintro _ _ _ _ ⟨rfl, rfl, rfl, rfl⟩
      exact ⟨hAlias, hBound⟩
    · rintro ⟨hHere, hParts⟩
      obtain ⟨hAlias, hBound⟩ := hHere _ _ _ _ rfl
      obtain ⟨hDomain, hBody⟩ : domain.checkShadowing aliases bound = .ok () ∧
          body.checkShadowing aliases (name :: bound) = .ok () := by
        simpa [parts] using hParts
      exact ⟨hDomain, hAlias, hBound, hBody⟩
  | set members =>
    rw [checkShadowing, checkShadowingAll_eq_ok_iff]
    simp [parts, children]
  | _ => simp [checkShadowing, parts, children, seq_eq_ok_iff]

/-- No quantifier binds one of the given names or that of a quantifier around it. -/
theorem checkShadowing_eq_ok_iff :
    e.checkShadowing aliases bound = .ok () ↔
      ∀ vars name, e.Binds vars name → name ∉ aliases ∧ name ∉ bound ∧ name ∉ vars := by
  induction e using induct_parts generalizing bound with
  | step e ih =>
    rw [checkShadowing_eq_ok_iff_parts]
    constructor
    · rintro ⟨hHere, hParts⟩ vars name hBinds
      rcases binds_iff.mp hBinds with ⟨rfl, quantifier, domain, body, h⟩ | ⟨part, hPart, inner, rfl, h⟩
      · obtain ⟨hAlias, hBound⟩ := hHere _ _ _ _ h
        exact ⟨hAlias, hBound, by simp⟩
      · obtain ⟨hAlias, hBound, hInner⟩ := (ih part hPart).mp (hParts part hPart) inner name h
        simp only [List.mem_append, not_or] at hBound ⊢
        exact ⟨hAlias, hBound.2, hBound.1, hInner⟩
    · intro hAll
      refine ⟨fun quantifier name domain body h => ?_, fun part hPart => ?_⟩
      · have hBinds : e.Binds [] name := binds_iff.mpr (.inl ⟨rfl, quantifier, domain, body, h⟩)
        obtain ⟨hAlias, hBound, -⟩ := hAll [] name hBinds
        exact ⟨hAlias, hBound⟩
      · refine (ih part hPart).mpr fun inner name h => ?_
        have hBinds : e.Binds (part.1.toList ++ inner) name :=
          binds_iff.mpr (.inr ⟨part, hPart, inner, rfl, h⟩)
        obtain ⟨hAlias, hBound, hVars⟩ := hAll _ name hBinds
        simp only [List.mem_append, not_or] at hVars ⊢
        exact ⟨hAlias, ⟨hVars.1, hBound⟩, hVars.2⟩

end TopicSpec.Expr
