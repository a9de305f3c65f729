import TopicSpec.Proofs.Expr.Occurrence
import TopicSpec.Typing.Environment

/-! # What inference visits

To find the type of an expression, inference finds that of every subexpression of it, under the
variables of the quantifiers around it with the types of their domains.
-/

namespace TopicSpec
set_option autoImplicit false

namespace Typing.Environment

/-- The type of the first expression under the first variables depends on that of the second
expression under the second variables. -/
inductive Visits (env : Environment) :
    List (String × Ty) → Expr → List (String × Ty) → Expr → Prop where
  | self (vars : List (String × Ty)) (e : Expr) : Visits env vars e vars e
  | outside {vars inner : List (String × Ty)} {e part found : Expr} :
    (none, part) ∈ e.parts → Visits env vars part inner found → Visits env vars e inner found
  | body {vars inner : List (String × Ty)} {quantifier : Quantifier} {bound : String}
      {domain body found : Expr} {domainType : Ty} :
    env.inferUnder vars domain = .ok domainType →
    Visits env ((bound, .of domainType.elements) :: vars) body inner found →
    Visits env vars (.quantified quantifier bound domain body) inner found

variable {env : Environment} {vars inner : List (String × Ty)} {e part found : Expr} {ty : Ty}

/-! ## One step -/

theorem infer_of_mem_members {members : List Expr} {types : List Ty}
    (h : env.inferAllUnder vars members = .ok types) (hPart : part ∈ members) :
    ∃ ty, env.inferUnder vars part = .ok ty := by
  induction members generalizing types with
  | nil => cases hPart
  | cons m members ih =>
    obtain ⟨ty, hHead, hRest⟩ := ok_of_bind h
    obtain ⟨more, hMore, _⟩ := ok_of_bind hRest
    rcases List.mem_cons.mp hPart with rfl | hPart
    · exact ⟨ty, hHead⟩
    · exact ih hMore hPart

theorem infer_outside (h : env.inferUnder vars e = .ok ty) (hPart : (none, part) ∈ e.parts) :
    ∃ partType, env.inferUnder vars part = .ok partType := by
  cases e with
  | vacuous | literal _ | var _ | this => cases hPart
  | field a _ | call _ a | unary _ a =>
    obtain rfl : part = a := by simpa [Expr.parts, Expr.children] using hPart
    obtain ⟨partType, hInfer, _⟩ := ok_of_bind h
    exact ⟨partType, hInfer⟩
  | index a b | range a b _ _ | binary _ a b =>
    obtain ⟨aType, hA, hRest⟩ := ok_of_bind h
    obtain ⟨bType, hB, _⟩ := ok_of_bind hRest
    obtain rfl | rfl : part = a ∨ part = b := by simpa [Expr.parts, Expr.children] using hPart
    · exact ⟨aType, hA⟩
    · exact ⟨bType, hB⟩
  | set members =>
    obtain ⟨types, hTypes, _⟩ := ok_of_bind h
    have hMember : part ∈ members := by simpa [Expr.parts, Expr.children] using hPart
    exact infer_of_mem_members hTypes hMember
  | quantified _ _ domain body =>
    obtain ⟨domainType, hDomain, _⟩ := ok_of_bind h
    obtain rfl : part = domain := by simpa [Expr.parts] using hPart
    exact ⟨domainType, hDomain⟩

theorem infer_body {quantifier : Quantifier} {bound : String} {domain body : Expr}
    (h : env.inferUnder vars (.quantified quantifier bound domain body) = .ok ty) :
    ∃ domainType bodyType, env.inferUnder vars domain = .ok domainType ∧
      env.inferUnder ((bound, .of domainType.elements) :: vars) body = .ok bodyType := by
  obtain ⟨domainType, hDomain, hRest⟩ := ok_of_bind h
  obtain ⟨bodyType, hBody, _⟩ := ok_of_bind hRest
  exact ⟨domainType, bodyType, hDomain, hBody⟩

/-! ## Every step -/

theorem Visits.infer (hVisits : env.Visits vars e inner found)
    (h : env.inferUnder vars e = .ok ty) :
    ∃ foundType, env.inferUnder inner found = .ok foundType := by
  induction hVisits generalizing ty with
  | self => exact ⟨ty, h⟩
  | outside hPart _ ih =>
    obtain ⟨partType, hInfer⟩ := infer_outside h hPart
    exact ih hInfer
  | body hDomain _ ih =>
    obtain ⟨domainType, bodyType, hDomain', hBody⟩ := infer_body h
    -- Both are the type of the domain, so the body is found under the same variables.
    obtain rfl := Except.ok.inj (hDomain.symm.trans hDomain')
    exact ih hBody

/-- What inference comes to occurs there, and the variables are those of the quantifiers around it,
the innermost first. -/
theorem Visits.within (h : env.Visits vars e inner found) :
    ∃ scope, e.Within scope found ∧ inner.map Prod.fst = scope.reverse ++ vars.map Prod.fst := by
  induction h with
  | self vars e => exact ⟨[], .self e, rfl⟩
  | outside hPart _ ih =>
    obtain ⟨scope, hWithin, hNames⟩ := ih
    exact ⟨scope, .inside hPart hWithin, hNames⟩
  | @body _ _ quantifier bound domain body _ _ _ _ ih =>
    obtain ⟨scope, hWithin, hNames⟩ := ih
    have hPart : (some bound, body) ∈ (Expr.quantified quantifier bound domain body).parts := by
      simp [Expr.parts]
    exact ⟨bound :: scope, .inside hPart hWithin, by simpa using hNames⟩

theorem exists_visits {scope : List String} (hWithin : e.Within scope found)
    (h : env.inferUnder vars e = .ok ty) :
    ∃ inner, env.Visits vars e inner found ∧
      inner.map Prod.fst = scope.reverse ++ vars.map Prod.fst := by
  induction hWithin generalizing vars ty with
  | self e => exact ⟨vars, .self vars e, rfl⟩
  | @inside e part found name? scope hPart _ ih =>
    cases name? with
    | none =>
      obtain ⟨partType, hInfer⟩ := infer_outside h hPart
      obtain ⟨inner, hVisits, hNames⟩ := ih hInfer
      exact ⟨inner, .outside hPart hVisits, hNames⟩
    | some bound =>
      cases e with
      | quantified quantifier name domain body =>
        obtain ⟨rfl, rfl⟩ : bound = name ∧ part = body := by simpa [Expr.parts] using hPart
        obtain ⟨domainType, bodyType, hDomain, hBody⟩ := infer_body h
        obtain ⟨inner, hVisits, hNames⟩ := ih hBody
        exact ⟨inner, .body hDomain hVisits, by simpa using hNames⟩
      | _ => simp [Expr.parts] at hPart

end Typing.Environment
end TopicSpec
