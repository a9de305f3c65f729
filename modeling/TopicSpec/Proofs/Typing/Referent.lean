import TopicSpec.Proofs.Expr.Occurrence
import TopicSpec.Proofs.Typing.OperandCount

/-! # Referents

Inference gives a name that stands for nothing the widest type. Strict inference fails there, and is
otherwise the same; where every free name has a referent the two agree. -/

namespace TopicSpec.Typing
set_option autoImplicit false

/-- What a name stands for: a variable in scope, or an event by its alias. -/
inductive Referent where
  | bound (ty : Ty)
  | event (topic : String)

def Referent.ty : Referent → Ty
  | bound ty => ty
  | event _ => .only .message

/-- Why strict inference fails. -/
inductive StrictError where
  | noReferent (name : String)
  | typing (e : TypeError)

instance : MonadLift (Except TypeError) (Except StrictError) where
  monadLift r := r.mapError .typing

namespace Environment

/-- A variable comes before an alias of the same name. -/
def referent? (env : Environment) (vars : List (String × Ty)) (name : String) : Option Referent :=
  match vars.find? (·.1 == name) with
  | some (_, ty) => some (.bound ty)
  | none => (env.aliasTopic? name).map .event

theorem nameType_eq (env : Environment) (vars : List (String × Ty)) (name : String) :
    env.nameType vars name = ((env.referent? vars name).map Referent.ty).getD .any := by
  unfold nameType referent?
  cases vars.find? (·.1 == name) with
  | some entry => rfl
  | none => cases env.aliasTopic? name <;> rfl

theorem referent?_of_mem {env : Environment} {vars : List (String × Ty)} {name : String}
    (h : name ∈ vars.map Prod.fst) : ∃ ty, env.referent? vars name = some (.bound ty) := by
  obtain ⟨entry, hEntry, rfl⟩ := List.mem_map.mp h
  obtain ⟨found, hFound⟩ := Option.isSome_iff_exists.mp
    (List.find?_isSome (p := fun found => found.1 == entry.1).mpr ⟨entry, hEntry, by simp⟩)
  exact ⟨found.2, by simp only [referent?, hFound]⟩

theorem referent?_of_not_mem {env : Environment} {vars : List (String × Ty)} {name : String}
    (h : name ∉ vars.map Prod.fst) :
    env.referent? vars name = (env.aliasTopic? name).map .event := by
  have hNone : vars.find? (·.1 == name) = none := by
    refine List.find?_eq_none.mpr fun entry hEntry hName => h (List.mem_map.mpr ⟨entry, hEntry, ?_⟩)
    simpa using hName
  simp only [referent?, hNone]

/-- The topic at the root of a field, too, is that of the referent. -/
theorem knownTopic?_eq (env : Environment) (resolver : Resolver) (vars : List (String × Ty))
    (name : String) :
    env.knownTopic? resolver vars (some name) =
      (match env.referent? vars name with
      | some (.event topic) => some topic
      | _ => none).filter resolver.knows := by
  by_cases h : name ∈ vars.map Prod.fst
  · obtain ⟨ty, hReferent⟩ : ∃ ty, env.referent? vars name = some (.bound ty) := referent?_of_mem h
    have hAny : vars.any (·.1 == name) = true := by simpa using h
    simp only [knownTopic?, hAny, hReferent, if_true]
  · have hAny : vars.any (·.1 == name) = false := by
      refine List.any_eq_false.mpr fun entry hEntry hName => h (List.mem_map.mpr ⟨entry, hEntry, ?_⟩)
      simpa using hName
    simp only [knownTopic?, hAny, referent?_of_not_mem h]
    cases env.aliasTopic? name <;> rfl

mutual
def inferStrictlyUnder (env : Environment) (vars : List (String × Ty)) :
    Expr → Except StrictError Ty
  | .vacuous => liftM (nodeType .vacuous [])
  | .literal l => liftM (nodeType (.literal l) [])
  | .this => liftM (nodeType .this [])
  | .var name =>
    match env.referent? vars name with
    | some referent => .ok referent.ty
    | none => .error (.noReferent name)
  | .field base name => do
    let ty ← nodeType (.field base name) [← env.inferStrictlyUnder vars base]
    return (← env.declared? vars (.field base name)).getD ty
  | .index base position => do
    let baseType ← env.inferStrictlyUnder vars base
    let positionType ← env.inferStrictlyUnder vars position
    nodeType (.index base position) [baseType, positionType]
  | .call function argument => do
    let ty ← env.inferStrictlyUnder vars argument
    nodeType (.call function argument) [ty]
  | .set members => do
    let types ← env.inferAllStrictlyUnder vars members
    nodeType (.set members) types
  | .range lower upper excludeLower excludeUpper => do
    let lowerType ← env.inferStrictlyUnder vars lower
    let upperType ← env.inferStrictlyUnder vars upper
    nodeType (.range lower upper excludeLower excludeUpper) [lowerType, upperType]
  | .unary op operand => do
    let ty ← env.inferStrictlyUnder vars operand
    nodeType (.unary op operand) [ty]
  | .binary op left right => do
    let leftType ← env.inferStrictlyUnder vars left
    let rightType ← env.inferStrictlyUnder vars right
    nodeType (.binary op left right) [leftType, rightType]
  | .quantified quantifier bound domain body => do
    let domainType ← env.inferStrictlyUnder vars domain
    let bodyType ← env.inferStrictlyUnder ((bound, .of domainType.elements) :: vars) body
    nodeType (.quantified quantifier bound domain body) [domainType, bodyType]

def inferAllStrictlyUnder (env : Environment) (vars : List (String × Ty)) :
    List Expr → Except StrictError (List Ty)
  | [] => .ok []
  | e :: es => do
    return (← env.inferStrictlyUnder vars e) :: (← env.inferAllStrictlyUnder vars es)
end

theorem liftM_eq_mapError {α : Type} (r : Except TypeError α) :
    (liftM r : Except StrictError α) = r.mapError .typing := rfl

variable {env : Environment} {vars : List (String × Ty)} {e : Expr}

theorem isSome_referent?_cons {bound name : String} {ty : Ty}
    (h : name ≠ bound → (env.referent? vars name).isSome) :
    (env.referent? ((bound, ty) :: vars) name).isSome := by
  unfold referent?
  by_cases hName : bound = name
  · simp [hName]
  · simpa [hName, referent?] using h (Ne.symm hName)

theorem inferAllStrictlyUnder_eq {members : List Expr}
    (h : ∀ m ∈ members,
      env.inferStrictlyUnder vars m = (env.inferUnder vars m).mapError .typing) :
    env.inferAllStrictlyUnder vars members = (env.inferAllUnder vars members).mapError .typing := by
  induction members with
  | nil => rfl
  | cons m members ih =>
    have hHead := h m List.mem_cons_self
    have hTail := ih fun m hMember => h m (List.mem_cons_of_mem _ hMember)
    simp only [inferAllStrictlyUnder, inferAllUnder, mapError_bind, hHead, hTail]
    rfl

theorem inferStrictlyUnder_eq (h : ∀ name, e.Free name → (env.referent? vars name).isSome) :
    env.inferStrictlyUnder vars e = (env.inferUnder vars e).mapError .typing := by
  induction e generalizing vars with
  | vacuous | literal | this => rfl
  | var name =>
    obtain ⟨referent, hReferent⟩ := Option.isSome_iff_exists.mp (h name ⟨[], .self _, by simp⟩)
    simp [inferStrictlyUnder, inferUnder, nameType_eq, hReferent, Except.mapError]
  | field base name ih =>
    have hBase := ih fun n hFree => h n (Expr.free_of_mem_parts (by simp [Expr.parts, Expr.children])
      hFree)
    simp only [inferStrictlyUnder, inferUnder, mapError_bind, hBase, liftM_eq_mapError]
    rfl
  | call _ a ih | unary _ a ih =>
    have hA := ih fun n hFree => h n (Expr.free_of_mem_parts (by simp [Expr.parts, Expr.children])
      hFree)
    simp only [inferStrictlyUnder, inferUnder, mapError_bind, hA, liftM_eq_mapError]
  | index a b ihA ihB | range a b _ _ ihA ihB | binary _ a b ihA ihB =>
    have hA := ihA fun n hFree => h n (Expr.free_of_mem_parts (by simp [Expr.parts, Expr.children])
      hFree)
    have hB := ihB fun n hFree => h n (Expr.free_of_mem_parts (by simp [Expr.parts, Expr.children])
      hFree)
    simp only [inferStrictlyUnder, inferUnder, mapError_bind, hA, hB, liftM_eq_mapError]
  | set members ih =>
    have hEach : ∀ m ∈ members,
        env.inferStrictlyUnder vars m = (env.inferUnder vars m).mapError .typing :=
      fun m hMember => ih m hMember fun n hFree =>
        h n (Expr.free_of_mem_parts (List.mem_map_of_mem hMember) hFree)
    have hMembers := inferAllStrictlyUnder_eq hEach
    simp only [inferStrictlyUnder, inferUnder, mapError_bind, hMembers, liftM_eq_mapError]
  | quantified quantifier bound domain body ihDomain ihBody =>
    have hDomain := ihDomain fun n hFree => h n (Expr.free_of_mem_parts (by simp [Expr.parts]) hFree)
    simp only [inferStrictlyUnder, inferUnder, mapError_bind, hDomain, liftM_eq_mapError]
    cases env.inferUnder vars domain with
    | error e => rfl
    | ok domainType =>
      have hBody := @ihBody ((bound, .of domainType.elements) :: vars) fun n hFree =>
        isSome_referent?_cons fun hName =>
          h n (Expr.free_iff.mpr (.inr ⟨(some bound, body), by simp [Expr.parts], hFree,
            by simpa using hName.symm⟩))
      simp only [mapError_ok, ok_bind, hBody]

end Environment
end TopicSpec.Typing
