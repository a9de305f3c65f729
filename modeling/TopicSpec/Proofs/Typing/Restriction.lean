import TopicSpec.Proofs.Typing.OperandCount
import TopicSpec.Proofs.Typing.Widening

/-! # Typing without schemas

A schema narrows the types of fields, and narrower types are accepted less often. So the guards
that are well typed with a resolver are so without one, and where the resolver knows no topic that a
guard can refer to, it makes no difference.
-/

namespace TopicSpec.Typing.Environment
set_option autoImplicit false

variable {env : Environment} {vars vars' : List (String × Ty)} {name : String} {e : Expr}

def unresolved (env : Environment) : Environment := { env with resolver := none }

/-! ## Nothing is known -/

/-- No topic that can be referred to is known. -/
def Unaware (env : Environment) : Prop :=
  ∀ resolver, env.resolver = some resolver → ∀ topic,
    (env.topic = some topic ∨ ∃ name, env.aliasTopic? name = some topic) →
    resolver.knows topic = false

theorem declared?_of_unaware (h : env.Unaware) : env.declared? vars e = .ok none := by
  unfold declared?
  split
  · rename_i resolver root path hResolver hPath
    have hUnknown : env.knownTopic? resolver vars root = none := by
      refine Option.filter_eq_none_iff.mpr fun topic hTopic => ?_
      rw [h resolver hResolver topic, Bool.false_eq_true]
      · exact id
      cases root with
      | none => exact .inl hTopic
      | some name =>
        refine .inr ⟨name, ?_⟩
        dsimp only at hTopic
        split at hTopic
        · cases hTopic
        · exact hTopic
    rw [hUnknown]
  · rfl

theorem unaware_unresolved : env.unresolved.Unaware := by
  intro resolver hResolver
  cases hResolver

theorem inferAllUnder_congr {env' : Environment} {members : List Expr}
    (h : ∀ m ∈ members, env.inferUnder vars m = env'.inferUnder vars m) :
    env.inferAllUnder vars members = env'.inferAllUnder vars members := by
  induction members with
  | nil => rfl
  | cons m members ih =>
    have hTail := ih fun m hMember => h m (List.mem_cons_of_mem _ hMember)
    rw [inferAllUnder, inferAllUnder, h m List.mem_cons_self, hTail]

theorem inferUnder_eq_unresolved (h : env.Unaware) :
    env.inferUnder vars e = env.unresolved.inferUnder vars e := by
  induction e generalizing vars with
  | vacuous | literal | this | var => rfl
  | field base name ih =>
    rw [inferUnder, inferUnder, ih, declared?_of_unaware h, declared?_of_unaware unaware_unresolved]
  | call _ a ih | unary _ a ih => rw [inferUnder, inferUnder, ih]
  | index a b ihA ihB | range a b _ _ ihA ihB | binary _ a b ihA ihB =>
    rw [inferUnder, inferUnder, ihA, ihB]
  | set members ih =>
    rw [inferUnder, inferUnder, inferAllUnder_congr fun m hMember => ih m hMember]
  | quantified quantifier bound domain body ihDomain ihBody =>
    simp only [inferUnder, ihDomain, ihBody]

theorem checkCondition_eq_unresolved (h : env.Unaware) :
    env.checkCondition e = env.unresolved.checkCondition e := by
  rw [checkCondition, checkCondition, infer, infer, inferUnder_eq_unresolved h]

/-! ## Less is known -/

/-- The same names in the same order, with wider types. -/
def Widens (vars vars' : List (String × Ty)) : Prop :=
  List.Forall₂ (fun entry entry' => entry.1 = entry'.1 ∧ entry.2 ≤ entry'.2) vars vars'

theorem nameType_mono (h : Widens vars vars') :
    env.nameType vars name ≤ env.unresolved.nameType vars' name := by
  induction h with
  | nil => exact Ty.le_refl _
  | @cons entry entry' _ _ hEntry _ ih =>
    obtain ⟨hName, hTy⟩ := hEntry
    by_cases hFound : entry.1 = name
    · have hFound' : entry'.1 = name := hName ▸ hFound
      simpa [nameType, List.find?_cons, hFound, hFound'] using hTy
    · have hFound' : ¬entry'.1 = name := hName ▸ hFound
      simpa [nameType, List.find?_cons, hFound, hFound'] using ih

theorem inferAllUnder_matched {members : List Expr}
    (h : ∀ m ∈ members,
      Matched (· ≤ ·) (env.inferUnder vars m) (env.unresolved.inferUnder vars' m)) :
    Matched (fun types types' => List.Forall₂ (· ≤ ·) types types' ∧ types.length = members.length)
      (env.inferAllUnder vars members) (env.unresolved.inferAllUnder vars' members) := by
  induction members with
  | nil => exact matched_ok ⟨.nil, rfl⟩
  | cons m members ih =>
    apply matched_bind (h m List.mem_cons_self)
    intro ty ty' hTy
    apply matched_bind (ih fun m hMember => h m (List.mem_cons_of_mem _ hMember))
    rintro types types' ⟨hTypes, hLength⟩
    exact matched_ok ⟨.cons hTy hTypes, by simp [hLength]⟩

/-- Whatever is well typed with schemas is so without them, with a wider type. -/
theorem inferUnder_matched (h : Widens vars vars') :
    Matched (· ≤ ·) (env.inferUnder vars e) (env.unresolved.inferUnder vars' e) := by
  induction e generalizing vars vars' with
  | vacuous | literal | this => exact nodeType_matched rfl .nil
  | var name => exact matched_ok (nameType_mono h)
  | field base name ih =>
    apply matched_bind (ih h)
    intro ty ty' hTy
    have hAny : Matched (fun _ answer' => answer' = .any) (nodeType (.field base name) [ty])
        (nodeType (.field base name) [ty']) := by
      apply matched_guard (expect_mono (Kinds.le_refl _) hTy)
      exact matched_ok rfl
    apply matched_bind hAny
    rintro answer _ rfl
    -- Without schemas the field keeps the widest type, whatever one declares it to be.
    rw [declared?_of_unaware unaware_unresolved]
    apply matched_bind (matched_of_ok (P := fun _ declared' => declared' = none) fun _ => rfl)
    rintro declared _ rfl
    exact matched_ok (Ty.le_any _)
  | call function argument ih | unary op argument ih =>
    apply matched_bind (ih h)
    intro ty ty' hTy
    exact nodeType_matched rfl (.cons hTy .nil)
  | index first second ihFirst ihSecond | range first second _ _ ihFirst ihSecond
  | binary op first second ihFirst ihSecond =>
    apply matched_bind (ihFirst h)
    intro firstType firstType' hFirst
    apply matched_bind (ihSecond h)
    intro secondType secondType' hSecond
    exact nodeType_matched rfl (.cons hFirst (.cons hSecond .nil))
  | set members ih =>
    apply matched_bind (inferAllUnder_matched fun m hMember => ih m hMember h)
    rintro types types' ⟨hTypes, hLength⟩
    exact nodeType_matched hLength hTypes
  | quantified quantifier bound domain body ihDomain ihBody =>
    apply matched_bind (ihDomain h)
    intro domainType domainType' hDomain
    have hVars : Widens ((bound, .of domainType.elements) :: vars)
        ((bound, .of domainType'.elements) :: vars') := .cons ⟨rfl, Ty.of_mono hDomain.2⟩ h
    apply matched_bind (ihBody hVars)
    intro bodyType bodyType' hBody
    exact nodeType_matched rfl (.cons hDomain (.cons hBody .nil))

theorem checkCondition_unresolved (h : env.checkCondition e = .ok ()) :
    env.unresolved.checkCondition e = .ok () := by
  obtain ⟨ty, hInfer, hExpect⟩ := ok_of_bind h
  obtain ⟨ty', hInfer', hTy⟩ := inferUnder_matched .nil ty hInfer
  rw [checkCondition, infer, hInfer']
  exact expect_mono (Kinds.le_refl _) hTy hExpect

end TopicSpec.Typing.Environment
