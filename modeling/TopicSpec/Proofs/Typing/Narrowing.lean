import TopicSpec.Proofs.Grammar.Yield
import TopicSpec.Proofs.Phrase.Integrity
import TopicSpec.Proofs.Phrase.Unchecked
import TopicSpec.Proofs.Typing.Admission
import TopicSpec.Proofs.Typing.Demand

/-! # What an environment adds to the type of an expression

While a tree is read, an expression is typed by the rule alone. An environment knows more of it: the
declared types of fields, the aliases of events and the elements of domains. It may narrow the type
by that, but not to one that no value has, and where it knows nothing it finds the same type.
-/

namespace TopicSpec
open Grammar
set_option autoImplicit false

/-! ## Types that values have -/

/-- Some kind of value has the type, and some kind of element. -/
structure Ty.Populated (ty : Ty) : Prop where
  kinds : ty.kinds ≠ .none
  elements : ty.elements ≠ .none

section
variable {kinds : Kinds}

theorem Kinds.ne_none_of_has (kind : Kind) (h : kinds.has kind = true) : kinds ≠ .none := by
  rintro rfl
  simp at h

theorem Ty.populated_of (h : kinds ≠ .none) : (Ty.of kinds).Populated :=
  ⟨h, Kinds.ne_none_of_has .bool (Kinds.has_any .bool)⟩

theorem Ty.populated_array (h : kinds ≠ .none) : (Ty.array kinds).Populated :=
  ⟨Kinds.ne_none_of_has .array rfl, h⟩

theorem Ty.populated_any : Ty.any.Populated :=
  Ty.populated_of (Kinds.ne_none_of_has .bool (Kinds.has_any .bool))

theorem Ty.populated_only (kind : Kind) : (Ty.only kind).Populated :=
  populated_of (Kinds.ne_none_of_has kind (by simp))

end

theorem FieldType.populated_ty (type : FieldType) : type.ty.Populated := by
  cases type with
  | base type => exact Ty.populated_only type.kind
  | array type => exact Ty.populated_array (Kinds.ne_none_of_has type.kind (by simp))

namespace Expr

/-- Every set has a member. -/
def SetsFilled (e : Expr) : Prop := ∀ scope, ¬e.Within scope (.set [])

variable {e : Expr}

theorem SetsFilled.ne_empty (h : e.SetsFilled) : e ≠ .set [] := by
  rintro rfl
  exact h [] (.self _)

theorem SetsFilled.parts (h : e.SetsFilled) : ∀ part ∈ e.parts, part.2.SetsFilled :=
  fun _ hPart _ hWithin => h _ (.inside hPart hWithin)

theorem Written.setsFilled {ty : Ty} (h : e.Written ty) : e.SetsFilled := by
  intro scope hWithin
  rcases h.of_within hWithin with hThis | ⟨_, hSet⟩
  · cases hThis
  · exact not_written_empty hSet

end Expr

namespace Typing

variable {e : Expr} {types : List Ty} {ty : Ty}

theorem result_ne_none {function : String} {signature : Signature}
    (h : signature? function = some signature) : signature.result ≠ .none := by
  unfold signature? at h
  dsimp only at h
  split_ifs at h <;> cases h <;> decide

theorem memberKinds_ne_none {kinds : Kinds} (h : memberKinds e types = .ok kinds)
    (hTypes : types ≠ []) : kinds ≠ .none := by
  cases types with
  | nil => exact absurd rfl hTypes
  | cons first types =>
    obtain ⟨_, hFirst, hRest⟩ := ok_of_bind h
    obtain ⟨more, -, hPure⟩ := ok_of_bind hRest
    obtain rfl := Except.ok.inj hPure
    obtain ⟨kind, hKind, hScalar⟩ := Kinds.admits_iff.mp (expect_eq_ok_iff.mp hFirst)
    exact Kinds.ne_none_of_has kind (by simp [hKind, hScalar])

theorem binaryType_populated {op : BinaryOp} {left right : Expr} {a b : Ty}
    (h : nodeType (.binary op left right) [a, b] = .ok ty) : ty.Populated := by
  rw [type_of_binary h]
  exact Ty.populated_only _

/-- The rule gives types that values have, unless a set has no member. -/
theorem nodeType_populated (hLength : types.length = e.children.length) (hSet : e ≠ .set [])
    (hTypes : ∀ part ∈ types, part.Populated) (h : nodeType e types = .ok ty) :
    ty.Populated := by
  cases e with
  | vacuous | literal _ | this =>
    obtain rfl := List.eq_nil_of_length_eq_zero hLength
    obtain rfl := Except.ok.inj h
    exact Ty.populated_only _
  | var _ =>
    obtain rfl := List.eq_nil_of_length_eq_zero hLength
    obtain rfl := Except.ok.inj h
    exact Ty.populated_any
  | field base name =>
    obtain ⟨baseType, rfl⟩ := List.length_eq_one_iff.mp hLength
    rw [type_of_field h]
    exact Ty.populated_any
  | index base position =>
    obtain ⟨baseType, positionType, rfl⟩ := List.length_eq_two.mp hLength
    obtain ⟨-, -, hRest⟩ := ok_of_bind h
    obtain ⟨-, -, hPure⟩ := ok_of_bind hRest
    obtain rfl := Except.ok.inj hPure
    exact Ty.populated_of (hTypes baseType List.mem_cons_self).elements
  | call function argument =>
    obtain ⟨argumentType, rfl⟩ := List.length_eq_one_iff.mp hLength
    simp only [nodeType] at h
    split at h
    · cases h
    · rename_i signature hSignature
      obtain ⟨-, -, hPure⟩ := ok_of_bind h
      obtain rfl := Except.ok.inj hPure
      exact Ty.populated_of (result_ne_none hSignature)
  | set members =>
    obtain ⟨kinds, hKinds, hPure⟩ := ok_of_bind h
    obtain rfl := Except.ok.inj hPure
    refine Ty.populated_array (memberKinds_ne_none hKinds ?_)
    rintro rfl
    exact hSet (congrArg Expr.set (List.eq_nil_of_length_eq_zero hLength.symm))
  | range lower upper _ _ =>
    obtain ⟨lowerType, upperType, rfl⟩ := List.length_eq_two.mp hLength
    obtain ⟨-, -, hRest⟩ := ok_of_bind h
    obtain ⟨-, -, hPure⟩ := ok_of_bind hRest
    obtain rfl := Except.ok.inj hPure
    exact Ty.populated_array (by decide)
  | unary op operand =>
    obtain ⟨operandType, rfl⟩ := List.length_eq_one_iff.mp hLength
    cases op with
    | not | neg =>
      obtain ⟨-, -, hPure⟩ := ok_of_bind h
      obtain rfl := Except.ok.inj hPure
      exact Ty.populated_only _
  | binary op left right =>
    obtain ⟨leftType, rightType, rfl⟩ := List.length_eq_two.mp hLength
    exact binaryType_populated h
  | quantified quantifier bound domain body =>
    obtain ⟨domainType, bodyType, rfl⟩ := List.length_eq_two.mp hLength
    rw [type_of_quantified h]
    exact Ty.populated_only _

namespace Environment

variable {env : Environment} {vars : List (String × Ty)} {e : Expr} {ty : Ty}

theorem nameType_populated (hVars : ∀ entry ∈ vars, entry.2.Populated) (name : String) :
    (env.nameType vars name).Populated := by
  unfold nameType
  split
  · rename_i hFound
    exact hVars _ (List.mem_of_find?_eq_some hFound)
  · split
    · exact Ty.populated_only _
    · exact Ty.populated_any

theorem declared?_populated (h : env.declared? vars e = .ok (some ty)) : ty.Populated := by
  unfold declared? at h
  split at h
  · split at h
    · cases h
    · split at h
      · obtain rfl := Option.some.inj (Except.ok.inj h)
        exact FieldType.populated_ty _
      · cases h
  · cases h

theorem inferAllUnder_populated {members : List Expr} {types : List Ty}
    (hMembers : ∀ m ∈ members, ∀ ty, env.inferUnder vars m = .ok ty → ty.Populated)
    (h : env.inferAllUnder vars members = .ok types) :
    (∀ part ∈ types, part.Populated) ∧ types.length = members.length := by
  induction members generalizing types with
  | nil =>
    obtain rfl := Except.ok.inj h
    simp
  | cons m members ih =>
    obtain ⟨first, hFirst, hRest⟩ := ok_of_bind h
    obtain ⟨more, hMore, hPure⟩ := ok_of_bind hRest
    obtain rfl := Except.ok.inj hPure
    obtain ⟨hHead, hTail⟩ := List.forall_mem_cons.mp hMembers
    obtain ⟨hAll, hLength⟩ := ih hTail hMore
    exact ⟨List.forall_mem_cons.mpr ⟨hHead first hFirst, hAll⟩, by simp [hLength]⟩

/-- Inference gives types that values have, where every set has a member. -/
theorem inferUnder_populated (hSets : e.SetsFilled)
    (hVars : ∀ entry ∈ vars, entry.2.Populated) (h : env.inferUnder vars e = .ok ty) :
    ty.Populated := by
  induction e generalizing vars ty with
  | vacuous | literal _ | this => exact nodeType_populated rfl hSets.ne_empty (by simp) h
  | var name =>
    obtain rfl := Except.ok.inj h
    exact nameType_populated hVars name
  | field base name _ =>
    obtain ⟨baseType, -, hRest⟩ := ok_of_bind h
    obtain ⟨own, hOwn, hRest⟩ := ok_of_bind hRest
    obtain ⟨declared, hDeclared, hPure⟩ := ok_of_bind hRest
    obtain rfl := Except.ok.inj hPure
    cases declared with
    | none =>
      rw [type_of_field hOwn]
      exact Ty.populated_any
    | some declared => exact declared?_populated hDeclared
  | call _ a ih | unary _ a ih =>
    obtain ⟨aType, hA, hNode⟩ := ok_of_bind h
    have hSetsA : a.SetsFilled := by simpa [Expr.parts, Expr.children] using hSets.parts
    have hAType := ih hSetsA hVars hA
    exact nodeType_populated rfl hSets.ne_empty (by simpa using hAType) hNode
  | index a b ihA ihB | range a b _ _ ihA ihB | binary _ a b ihA ihB =>
    obtain ⟨aType, hA, hRest⟩ := ok_of_bind h
    obtain ⟨bType, hB, hNode⟩ := ok_of_bind hRest
    obtain ⟨hSetsA, hSetsB⟩ : a.SetsFilled ∧ b.SetsFilled := by
      simpa [Expr.parts, Expr.children] using hSets.parts
    have hAType := ihA hSetsA hVars hA
    have hBType := ihB hSetsB hVars hB
    exact nodeType_populated rfl hSets.ne_empty (by simpa using ⟨hAType, hBType⟩) hNode
  | set members ih =>
    obtain ⟨types, hTypes, hNode⟩ := ok_of_bind h
    obtain ⟨hAll, hLength⟩ := inferAllUnder_populated (fun m hMember _ hType =>
      ih m hMember (hSets.parts _ (List.mem_map_of_mem hMember)) hVars hType) hTypes
    exact nodeType_populated hLength hSets.ne_empty hAll hNode
  | quantified quantifier bound domain body ihDomain ihBody =>
    obtain ⟨domainType, hDomain, hRest⟩ := ok_of_bind h
    obtain ⟨bodyType, hBody, hNode⟩ := ok_of_bind hRest
    obtain ⟨hSetsDomain, hSetsBody⟩ : domain.SetsFilled ∧ body.SetsFilled := by
      simpa [Expr.parts] using hSets.parts
    have hDomainType := ihDomain hSetsDomain hVars hDomain
    -- The variable has the elements of the domain, and there are some.
    have hBodyVars : ∀ entry ∈ (bound, Ty.of domainType.elements) :: vars, entry.2.Populated :=
      List.forall_mem_cons.mpr ⟨Ty.populated_of hDomainType.elements, hVars⟩
    have hBodyType := ihBody hSetsBody hBodyVars hBody
    exact nodeType_populated rfl hSets.ne_empty (by simpa using ⟨hDomainType, hBodyType⟩) hNode

/-! ## Nothing to go by but the rule -/

theorem inferAllUnder_of_members {members : List (Expr × Ty)}
    (h : ∀ m ∈ members, env.inferUnder vars m.1 = .ok m.2) :
    env.inferAllUnder vars (members.map (·.1)) = .ok (members.map (·.2)) := by
  induction members with
  | nil => rfl
  | cons m members ih =>
    obtain ⟨hHead, hMore⟩ := List.forall_mem_cons.mp h
    rw [List.map_cons, inferAllUnder, hHead, ih hMore]
    rfl

/-- Where nothing is known of any name, inference finds the type of the tree. -/
theorem inferUnder_of_written (h : e.Written ty)
    (hUnbound : ∀ scope name, ¬e.Binds scope name) (hAliases : env.aliases = [])
    (hResolver : env.resolver = none) : env.inferUnder [] e = .ok ty := by
  have hUnaware : env.Unaware := fun resolver hSome => by simp [hResolver] at hSome
  have hDeclared {found : Expr} : env.declared? [] found = .ok none := declared?_of_unaware hUnaware
  have hParts {found : Expr} (hUnbound : ∀ scope name, ¬found.Binds scope name) :
      ∀ part ∈ found.parts, ∀ scope name, ¬part.2.Binds scope name :=
    fun part hPart scope name hBinds =>
      hUnbound _ name (Expr.binds_iff.mpr (.inr ⟨part, hPart, scope, rfl, hBinds⟩))
  induction h with
  | literal => rfl
  | var => simp [inferUnder, nameType, aliasTopic?, hAliases]
  | @ownField name _ =>
    have hThis : env.inferUnder [] .this = .ok (.only .message) := rfl
    have hType : nodeType (.field .this name) [.only .message] = .ok .any := rfl
    rw [inferUnder, hThis, ok_bind, hType, ok_bind, hDeclared]
    rfl
  | field _ _ _ hType ih =>
    have hBase := ih (by simpa [Expr.parts, Expr.children] using hParts hUnbound)
    rw [inferUnder, hBase, ok_bind, hType, ok_bind, hDeclared]
    rfl
  | call _ _ hType ih | not _ hType ih | neg _ _ hType ih =>
    have hOperand := ih (by simpa [Expr.parts, Expr.children] using hParts hUnbound)
    rw [inferUnder, hOperand, ok_bind, hType]
  | index _ _ _ _ hType ih ih' | range _ _ hType ih ih' | binary _ _ hType ih ih' =>
    have hOperands := hParts hUnbound
    simp only [Expr.parts, Expr.children, List.map_cons, List.map_nil,
      List.forall_mem_cons] at hOperands
    rw [inferUnder, ih hOperands.1, ok_bind, ih' hOperands.2.1, ok_bind, hType]
  | @set members _ _ _ hType ih =>
    have hMembers : ∀ m ∈ members, env.inferUnder [] m.1 = .ok m.2 := by
      intro m hMember
      refine ih m hMember (hParts hUnbound (none, m.1) ?_)
      exact List.mem_map_of_mem (List.mem_map_of_mem hMember)
    rw [inferUnder, inferAllUnder_of_members hMembers, ok_bind, hType]
  | @quantified quantifier bound domain body =>
    exact absurd ⟨quantifier, domain, body, .self _⟩ (hUnbound [] bound)

end Environment
end Typing

/-! ## Parts of a text -/

section
variable {resolver : Option Resolver} {form : Form} {text : String} {tree part : SyntaxTree}
  {e : Expr} {ty : Ty}

theorem Phrase.written_of_part (hText : SyntaxTree.ofText form text = .ok tree)
    (hPart : tree.Has part) (hPhrase : ofTree resolver part = .ok (.expr e ty)) : e.Written ty := by
  cases part with
  | leaf => cases hPhrase
  | node rule children =>
    obtain ⟨s, t, -, -, -, hDerives, -⟩ := takes_of_ofText hText hPart
    by_cases hTop : rule.nonterminal = .topLevelCondition
    · rw [hTop] at hDerives
      cases hDerives with
      | topLevelCondition _ hCondition _ =>
        obtain ⟨p, hChild, hNode⟩ := children_of_one hPhrase
        obtain ⟨⟨x, tx⟩, hx, hChecks⟩ := ok_of_bind hNode
        obtain ⟨-, -, hRest⟩ := ok_of_bind hChecks
        obtain ⟨-, -, hSame⟩ := ok_of_bind hRest
        obtain rfl := eq_of_toExpr hx
        cases hSame
        exact written_of_derives hCondition rfl nofun hChild
    · exact written_of_derives hDerives (sense_of_derives hDerives hPhrase).symm hTop hPhrase

/-- An environment finds for an expression of a text no wider type than the rule has found, and one
that values have. If the expression quantifies over nothing and the environment has neither aliases
nor schemas, it finds the same type. -/
theorem environment_only_narrows (env : Typing.Environment)
    (hText : SyntaxTree.ofText form text = .ok tree) (hPart : tree.Has part)
    (hPhrase : Phrase.ofTree resolver part = .ok (.expr e ty)) :
    (∀ narrow, env.infer e = .ok narrow → narrow ≤ ty ∧ narrow.Populated) ∧
    ((∀ scope name, ¬e.Binds scope name) → env.aliases = [] → env.resolver = none →
      env.infer e = .ok ty) := by
  have hWritten := Phrase.written_of_part hText hPart hPhrase
  refine ⟨fun narrow hInfer => ⟨?_, ?_⟩, fun hUnbound hAliases hResolver => ?_⟩
  · obtain ⟨_, hSame, hLe⟩ := Typing.Environment.inferUnder_admitted hWritten narrow hInfer
    cases hSame
    exact hLe
  · exact Typing.Environment.inferUnder_populated hWritten.setsFilled (by simp) hInfer
  · exact Typing.Environment.inferUnder_of_written hWritten hUnbound hAliases hResolver

end

/-- A field named alone is a boolean where its topic declares it so, and may be anything where
nothing is declared. -/
theorem declared_field_narrows : ∃ tree e,
    SyntaxTree.ofText .predicate "on" = .ok tree ∧
    Phrase.ofTree none tree = .ok (.expr e .any) ∧
    (Ty.only .bool ≤ .any ∧ (Ty.only .bool).Populated) ∧
    (Typing.Environment.mk none [] none).infer e = .ok .any := by
  obtain ⟨tree, hText, hPhrase⟩ : ∃ tree, SyntaxTree.ofText .predicate "on" = .ok tree ∧
      Phrase.ofTree none tree = .ok (.expr (.field .this "on") .any) :=
    ⟨.node .topLevelCondition [.node .condition [.node .disjunction [.node .conjunction
      [.node .atomicCondition [.node .expr [.node .term [.node .factor
        [.node .ownField [.leaf ⟨.name, "on"⟩]]]]]]]]], rfl, rfl⟩
  have hUnbound : ∀ scope name, ¬(Expr.field .this "on").Binds scope name := by
    rintro scope name ⟨quantifier, domain, body, hWithin⟩
    cases hWithin with
    | inside hPart hInner =>
      obtain ⟨-, rfl⟩ := Prod.mk.inj (List.mem_singleton.mp hPart)
      cases Expr.eq_of_within_this hInner
  have hNarrows := environment_only_narrows ⟨some "lamp", [], some ⟨(· == "lamp"), fun _ path =>
    if path = "on" then some (.base .bool) else none⟩⟩ hText (.self tree) hPhrase
  have hSame := environment_only_narrows ⟨none, [], none⟩ hText (.self tree) hPhrase
  exact ⟨tree, _, hText, hPhrase, hNarrows.1 _ rfl, hSame.2 hUnbound rfl rfl⟩

end TopicSpec
