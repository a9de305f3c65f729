import Mathlib.Data.List.Forall2
import TopicSpec.Proofs.Expr.FirstOccurrence
import TopicSpec.Proofs.Expr.Renaming
import TopicSpec.Proofs.Typing.Referent

/-! # The names of variables

The variable of a quantifier may be given any name that does not occur. Neither the references of
an expression nor its type change, whatever the environment knows of the old name or the new one,
and the expression remains one in which no variable hides another. -/

namespace TopicSpec
set_option autoImplicit false

theorem toOption_bind {ε α β : Type} (r : Except ε α) (f : α → Except ε β) :
    (r >>= f).toOption = r.toOption.bind fun a => (f a).toOption := by
  cases r <;> rfl

namespace Typing

/-! ## What the rule looks at -/

/-- The form of an expression, without its subexpressions. -/
def outline : Expr → Expr
  | .field _ name => .field .this name
  | .index _ _ => .index .this .this
  | .call function _ => .call function .this
  | .set _ => .set []
  | .range _ _ excludeLower excludeUpper => .range .this .this excludeLower excludeUpper
  | .unary op _ => .unary op .this
  | .binary op _ _ => .binary op .this .this
  | .quantified quantifier _ _ _ => .quantified quantifier "" .this .this
  | e => e

theorem toOption_expect (role : Role) (kinds : Kinds) (ty : Ty) (e e' : Expr) :
    (expect role kinds ty e).toOption = (expect role kinds ty e').toOption := by
  unfold expect
  split <;> rfl

theorem toOption_memberKinds (e e' : Expr) (types : List Ty) :
    (memberKinds e types).toOption = (memberKinds e' types).toOption := by
  induction types with
  | nil => rfl
  | cons ty types ih =>
    simp only [memberKinds, toOption_bind, ih, toOption_expect _ _ _ e e']

theorem toOption_unaryType (op : UnaryOp) (operand : Ty) (e e' : Expr) :
    (unaryType op operand e).toOption = (unaryType op operand e').toOption := by
  cases op with
  | not | neg => simp only [unaryType, toOption_bind, toOption_expect _ _ _ e e']

theorem toOption_binaryType (op : BinaryOp) (left right : Ty) (e e' : Expr) :
    (binaryType op left right e).toOption = (binaryType op left right e').toOption := by
  cases op with
  | eq | ne =>
    simp only [binaryType]
    split <;> rfl
  | _ => simp only [binaryType, operatorType, toOption_bind, toOption_expect _ _ _ e e']

/-- Subexpressions tell in the error alone. -/
theorem toOption_nodeType_outline (e : Expr) (types : List Ty) :
    (nodeType e types).toOption = (nodeType (outline e) types).toOption := by
  cases e with
  | vacuous | literal _ | var _ | this => rfl
  | field base name =>
    rcases types with _ | ⟨a, _ | ⟨b, types⟩⟩
    · rfl
    · simp only [nodeType, outline, toOption_bind,
        toOption_expect _ _ _ (.field base name) (.field .this name)]
    · rfl
  | index base position =>
    rcases types with _ | ⟨a, _ | ⟨b, _ | ⟨c, types⟩⟩⟩
    · rfl
    · rfl
    · simp only [nodeType, outline, toOption_bind,
        toOption_expect _ _ _ (.index base position) (.index .this .this)]
    · rfl
  | call function argument =>
    rcases types with _ | ⟨a, _ | ⟨b, types⟩⟩
    · rfl
    · simp only [nodeType, outline]
      split
      · rfl
      · simp only [toOption_bind, toOption_expect _ _ _ (.call function argument)
          (.call function .this)]
    · rfl
  | set members =>
    simp only [nodeType, outline, toOption_bind, toOption_memberKinds (.set members) (.set [])]
  | range lower upper excludeLower excludeUpper =>
    rcases types with _ | ⟨a, _ | ⟨b, _ | ⟨c, types⟩⟩⟩
    · rfl
    · rfl
    · simp only [nodeType, outline, toOption_bind, toOption_expect _ _ _
        (.range lower upper excludeLower excludeUpper)
        (.range .this .this excludeLower excludeUpper)]
    · rfl
  | unary op operand =>
    rcases types with _ | ⟨a, _ | ⟨b, types⟩⟩
    · rfl
    · exact toOption_unaryType op a _ _
    · rfl
  | binary op left right =>
    rcases types with _ | ⟨a, _ | ⟨b, _ | ⟨c, types⟩⟩⟩
    · rfl
    · rfl
    · exact toOption_binaryType op a b _ _
    · rfl
  | quantified quantifier bound domain body =>
    rcases types with _ | ⟨a, _ | ⟨b, _ | ⟨c, types⟩⟩⟩
    · rfl
    · rfl
    · simp only [nodeType, outline, toOption_bind, toOption_expect _ _ _
        (.quantified quantifier bound domain body) (.quantified quantifier "" .this .this)]
    · rfl

theorem toOption_nodeType {e e' : Expr} (h : outline e = outline e') (types : List Ty) :
    (nodeType e types).toOption = (nodeType e' types).toOption := by
  rw [toOption_nodeType_outline e, h, ← toOption_nodeType_outline e']

section
variable {e e' : Expr} {r r' : Except TypeError Ty}

theorem toOption_unaryNode (hForm : outline e' = outline e) (hOperand : r'.toOption = r.toOption) :
    (r' >>= fun ty => nodeType e' [ty]).toOption = (r >>= fun ty => nodeType e [ty]).toOption := by
  rw [toOption_bind, toOption_bind, hOperand]
  exact Option.bind_congr fun _ _ => toOption_nodeType hForm _

/-- The second operand may depend on the type of the first. -/
theorem toOption_binaryNode {s s' : Ty → Except TypeError Ty} (hForm : outline e' = outline e)
    (hFirst : r'.toOption = r.toOption) (hSecond : ∀ ty, (s' ty).toOption = (s ty).toOption) :
    (r' >>= fun first => s' first >>= fun second => nodeType e' [first, second]).toOption =
      (r >>= fun first => s first >>= fun second => nodeType e [first, second]).toOption := by
  simp only [toOption_bind, hFirst, hSecond]
  exact Option.bind_congr fun _ _ => Option.bind_congr fun _ _ => toOption_nodeType hForm _

end

namespace Environment

variable {env : Environment} {vars vars' : List (String × Ty)} {e e' : Expr} {fresh : String}
  {σ : String → String}

/-! ## Roots of references -/

theorem path?_renameFree (σ : String → String) (e : Expr) :
    path? (e.renameFree σ) = (path? e).map fun (root, path) => (root.map σ, path) := by
  induction e generalizing σ with
  | field base name ih =>
    rw [Expr.renameFree, path?, path?, ih, Option.map_map, Option.map_map]
    rfl
  | index base position ih _ => exact ih σ
  | _ => rfl

theorem free_of_path? {name path : String} (h : path? e = some (some name, path)) :
    e.Free name := by
  induction e generalizing path with
  | var found =>
    obtain ⟨hName, -⟩ := Prod.mk.inj (Option.some.inj h)
    obtain rfl := Option.some.inj hName
    exact Expr.mem_freeOccurrences_iff.mp (List.mem_singleton_self _)
  | field base name' ih =>
    obtain ⟨⟨root, path'⟩, hBase, hRoot⟩ := Option.map_eq_some_iff.mp h
    obtain ⟨rfl, -⟩ := Prod.mk.inj hRoot
    exact Expr.free_of_mem_parts List.mem_cons_self (ih hBase)
  | index base position ih _ => exact Expr.free_of_mem_parts List.mem_cons_self (ih h)
  | this => cases (Prod.mk.inj (Option.some.inj h)).1
  | _ => cases h

theorem path?_rebinds (h : Expr.Rebinds fresh e e') : path? e' = path? e := by
  induction h with
  | field _ _ ih => rw [path?, path?, ih]
  | base _ _ ih => exact ih
  | _ => rfl

theorem knownTopic?_congr {root : Option String} (resolver : Resolver)
    (h : ∀ name, root = some name → env.referent? vars' (σ name) = env.referent? vars name) :
    env.knownTopic? resolver vars' (root.map σ) = env.knownTopic? resolver vars root := by
  cases root with
  | none => rfl
  | some name => rw [Option.map_some, knownTopic?_eq, knownTopic?_eq, h name rfl]

theorem toOption_declared? (hPath : path? e' = (path? e).map fun (root, path) => (root.map σ, path))
    (h : ∀ name, e.Free name → env.referent? vars' (σ name) = env.referent? vars name) :
    (env.declared? vars' e').toOption = (env.declared? vars e).toOption := by
  unfold declared?
  cases env.resolver with
  | none => rfl
  | some resolver =>
    cases hFound : path? e with
    | none => simp only [hPath, hFound, Option.map_none]
    | some found =>
      obtain ⟨root, path⟩ := found
      have hRoot : env.knownTopic? resolver vars' (root.map σ) =
          env.knownTopic? resolver vars root := by
        refine knownTopic?_congr resolver ?_
        rintro name rfl
        exact h name (free_of_path? hFound)
      simp only [hPath, hFound, Option.map_some, hRoot]
      cases env.knownTopic? resolver vars root with
      | none => rfl
      | some topic =>
        dsimp only
        cases resolver.fieldType? topic path <;> rfl

/-! ## Types under a renaming -/

theorem toOption_inferAllUnder_congr {members members' : List Expr}
    (h : List.Forall₂ (fun m' m => (env.inferUnder vars' m').toOption =
      (env.inferUnder vars m).toOption) members' members) :
    (env.inferAllUnder vars' members').toOption = (env.inferAllUnder vars members).toOption := by
  induction h with
  | nil => rfl
  | cons hHead _ ih => simp only [inferAllUnder, toOption_bind, hHead, ih]

theorem toOption_set {members members' : List Expr}
    (h : List.Forall₂ (fun m' m => (env.inferUnder vars' m').toOption =
      (env.inferUnder vars m).toOption) members' members) :
    (env.inferUnder vars' (.set members')).toOption =
      (env.inferUnder vars (.set members)).toOption := by
  simp only [inferUnder, toOption_bind, toOption_inferAllUnder_congr h]
  exact Option.bind_congr fun _ _ => toOption_nodeType (by rfl) _

theorem toOption_field {base base' : Expr} {name : String}
    (hBase : (env.inferUnder vars' base').toOption = (env.inferUnder vars base).toOption)
    (hDeclared : (env.declared? vars' (.field base' name)).toOption =
      (env.declared? vars (.field base name)).toOption) :
    (env.inferUnder vars' (.field base' name)).toOption =
      (env.inferUnder vars (.field base name)).toOption := by
  have hNode : ∀ types, (nodeType (.field base' name) types).toOption =
      (nodeType (.field base name) types).toOption := toOption_nodeType (by rfl)
  simp only [inferUnder, toOption_bind, hBase, hNode, hDeclared]

theorem referent?_cons (env : Environment) (bound name : String) (ty : Ty) :
    env.referent? ((bound, ty) :: vars) name =
      if name = bound then some (.bound ty) else env.referent? vars name := by
  by_cases h : name = bound
  · simp [referent?, h]
  · have hOther : (bound == name) = false := beq_false_of_ne (Ne.symm h)
    simp [referent?, h, hOther]

/-- The renaming takes the name of no variable, and what the free names stand for they stand for
after it. -/
structure Carries (env : Environment) (vars vars' : List (String × Ty)) (σ : String → String)
    (e : Expr) : Prop where
  fresh : Expr.Fresh σ e
  referents : ∀ name, e.Free name → env.referent? vars' (σ name) = env.referent? vars name

theorem Carries.part {part : Expr} (h : env.Carries vars vars' σ e)
    (hPart : (none, part) ∈ e.parts) : env.Carries vars vars' σ part where
  fresh := h.fresh.parts _ hPart
  referents name hFree := h.referents name (Expr.free_of_mem_parts hPart hFree)

theorem Carries.body {quantifier : Quantifier} {bound : String} {domain body : Expr}
    (h : env.Carries vars vars' σ (.quantified quantifier bound domain body)) (ty : Ty) :
    env.Carries ((bound, ty) :: vars) ((bound, ty) :: vars') (Expr.inBody bound σ) body where
  fresh := (h.fresh.parts (some bound, body) (by simp [Expr.parts])).inBody bound
  referents name hFree := by
    rw [referent?_cons, referent?_cons]
    by_cases hName : name = bound
    · simp [Expr.inBody, hName]
    · have hOuter : (Expr.quantified quantifier bound domain body).Free name :=
        Expr.free_iff.mpr (.inr ⟨(some bound, body), by simp [Expr.parts], hFree,
          fun hBound => hName (Option.some.inj hBound).symm⟩)
      rw [Expr.inBody, if_neg hName, if_neg hName, if_neg (h.fresh.ne_bound hName),
        h.referents name hOuter]

/-- Free names may be renamed along with what they refer to. -/
theorem toOption_inferUnder_renameFree (h : env.Carries vars vars' σ e) :
    (env.inferUnder vars' (e.renameFree σ)).toOption = (env.inferUnder vars e).toOption := by
  induction e generalizing vars vars' σ with
  | vacuous | literal _ | this => rfl
  | var name =>
    have hName := h.referents name (Expr.mem_freeOccurrences_iff.mp (List.mem_singleton_self _))
    simp only [Expr.renameFree, inferUnder, nameType_eq, hName]
  | field base name ih =>
    exact toOption_field (ih (h.part List.mem_cons_self))
      (toOption_declared? (path?_renameFree σ (.field base name)) h.referents)
  | call _ a ih | unary _ a ih => exact toOption_unaryNode rfl (ih (h.part List.mem_cons_self))
  | index a b ihA ihB | range a b _ _ ihA ihB | binary _ a b ihA ihB =>
    have hA := ihA (h.part List.mem_cons_self)
    have hB := ihB (h.part (List.mem_cons_of_mem _ List.mem_cons_self))
    exact toOption_binaryNode rfl hA fun _ => hB
  | set members ih =>
    refine toOption_set ?_
    rw [Expr.renameFreeAll_eq_map, List.forall₂_map_left_iff]
    exact List.forall₂_same.mpr fun m hMember =>
      ih m hMember (h.part (List.mem_map_of_mem hMember))
  | quantified quantifier bound domain body ihDomain ihBody =>
    exact toOption_binaryNode rfl (ihDomain (h.part List.mem_cons_self)) fun _ => ihBody (h.body _)

/-- The type does not depend on the name of a variable. -/
theorem toOption_inferUnder_rebinds (h : Expr.Rebinds fresh e e') (hAvoids : e.Avoids fresh) :
    (env.inferUnder vars e').toOption = (env.inferUnder vars e).toOption := by
  induction h generalizing vars with
  | here quantifier bound domain body =>
    have hBody : body.Avoids fresh := hAvoids.parts (some bound, body) (by simp [Expr.parts])
    have hCarries (ty : Ty) : env.Carries ((bound, ty) :: vars) ((fresh, ty) :: vars)
        (Expr.renameOne bound fresh) body := by
      refine ⟨Expr.fresh_renameOne hBody, fun name hFree => ?_⟩
      rw [referent?_cons, referent?_cons, Expr.renameOne]
      by_cases hName : name = bound
      · simp [hName]
      · have hOther : name ≠ fresh := by
          rintro rfl
          exact hBody.not_free hFree
        simp [hName, hOther]
    exact toOption_binaryNode rfl rfl fun _ => toOption_inferUnder_renameFree (hCarries _)
  | @field base base' name hBase ih =>
    refine toOption_field (ih (hAvoids.parts _ List.mem_cons_self)) ?_
    refine @toOption_declared? env vars vars _ _ id ?_ fun _ _ => rfl
    rw [path?_rebinds (hBase.field name)]
    simp
  | call _ _ ih | operand _ _ ih =>
    exact toOption_unaryNode rfl (ih (hAvoids.parts _ List.mem_cons_self))
  | base _ _ ih | lower _ _ _ _ ih | left _ _ _ ih | domain _ _ _ _ ih =>
    exact toOption_binaryNode rfl (ih (hAvoids.parts _ List.mem_cons_self)) fun _ => rfl
  | position _ _ ih | upper _ _ _ _ ih | right _ _ _ ih | body _ _ _ _ ih =>
    have hPart := hAvoids.parts _ (List.mem_cons_of_mem _ List.mem_cons_self)
    exact toOption_binaryNode rfl rfl fun _ => ih hPart
  | @member m m' before after _ ih =>
    have hPart := hAvoids.parts (none, m) (List.mem_map_of_mem (by simp [Expr.children]))
    have hSame (members : List Expr) : List.Forall₂ (fun n' n =>
        (env.inferUnder vars n').toOption = (env.inferUnder vars n).toOption) members members :=
      List.forall₂_same.mpr fun _ _ => rfl
    exact toOption_set (List.rel_append (hSame before) (.cons (ih hPart) (hSame after)))

end Environment
end Typing

/-- The variable of a quantifier may be given any name that does not occur. The references stay,
which are the free names, each once and in the order of their first places. So does the type, or
that there is none, and no variable is hidden where none was. -/
theorem binding_is_hygienic {e e' : Expr} {fresh : String} (hRename : e.Rebinds fresh e')
    (hFresh : e.Avoids fresh) :
    (e'.references = e.references ∧ e.references.Nodup ∧
      (∀ name, name ∈ e.references ↔ e.Free name) ∧ e.references.Pairwise e.FirstBefore) ∧
    (∀ env : Typing.Environment, (env.infer e').toOption = (env.infer e).toOption) ∧
    (e.checkBinding = .ok () → e'.checkBinding = .ok ()) := by
  refine ⟨⟨?_, Expr.nodup_distinct _, fun name => ?_, Expr.references_ordered e⟩, fun env => ?_,
    fun hCheck => ?_⟩
  · rw [Expr.references, Expr.references, hRename.freeOccurrences hFresh]
  · rw [Expr.mem_references_iff, Expr.mem_freeOccurrences_iff]
  · exact Typing.Environment.toOption_inferUnder_rebinds hRename hFresh
  · exact hRename.checkShadowing hFresh List.not_mem_nil List.not_mem_nil hCheck

/-- The domain of a quantifier and its siblings keep the name that its body gives up. -/
theorem siblings_keep_their_names :
    let one : Expr := .literal ⟨"1", .int 1⟩
    let sibling : Expr := .quantified .existential "x" (.var "y") (.binary .ge (.var "x") one)
    let original : Expr :=
      .binary .and (.quantified .universal "x" (.var "x") (.binary .ge (.var "x") one)) sibling
    let renamed : Expr :=
      .binary .and (.quantified .universal "z" (.var "x") (.binary .ge (.var "z") one)) sibling
    original.Rebinds "z" renamed ∧ original.Avoids "z" ∧
      renamed.references = ["x", "y"] ∧ renamed.checkBinding = .ok () := by
  intro one sibling original renamed
  have hRename : original.Rebinds "z" renamed := .left _ _ (.here _ _ _ _)
  have hOne : one.Avoids "z" :=
    Expr.avoids_iff.mpr ⟨by simp, by simp, by simp [one, Expr.parts, Expr.children]⟩
  have hVar (name : String) (hName : name ≠ "z") : (Expr.var name).Avoids "z" :=
    Expr.avoids_iff.mpr ⟨by simpa using hName, by simp, by simp [Expr.parts, Expr.children]⟩
  have hCompared (name : String) (hName : name ≠ "z") :
      (Expr.binary .ge (.var name) one).Avoids "z" :=
    Expr.avoids_iff.mpr
      ⟨by simp, by simp, by simp [Expr.parts, Expr.children, hVar name hName, hOne]⟩
  have hQuantified (quantifier : Quantifier) (source : String) (hSource : source ≠ "z") :
      (Expr.quantified quantifier "x" (.var source) (.binary .ge (.var "x") one)).Avoids "z" :=
    Expr.avoids_iff.mpr ⟨by simp, by simp, by simp [Expr.parts, hVar source hSource, hCompared]⟩
  have hFresh : original.Avoids "z" := Expr.avoids_iff.mpr
    ⟨by simp, by simp, by simp [original, sibling, Expr.parts, Expr.children, hQuantified]⟩
  have hHygiene := binding_is_hygienic hRename hFresh
  exact ⟨hRename, hFresh, hHygiene.1.1.trans (by decide +kernel), hHygiene.2.2 (by decide +kernel)⟩

end TopicSpec
