import TopicSpec.Proofs.Phrase.Written
import TopicSpec.Proofs.Typing.Restriction

/-! # Types of a tree and types in an environment

The type that an expression is given while its tree is read is the widest one it can have. An
environment narrows it, so what the environment admits as a condition the tree has admitted. -/

namespace TopicSpec.Typing
set_option autoImplicit false

variable {env : Environment} {vars : List (String × Ty)} {e base : Expr} {ty ty' : Ty}

theorem type_of_field {name : String} (h : nodeType (.field base name) [ty'] = .ok ty) :
    ty = .any := by
  obtain ⟨-, -, hPure⟩ := ok_of_bind h
  exact (Except.ok.inj hPure).symm

theorem matched_any (r : Except TypeError Ty) : Matched (· ≤ ·) r (.ok Ty.any) :=
  matched_of_ok fun ty => Ty.le_any ty

theorem matched_node_one {a : Ty} {r : Except TypeError Ty} (hLength : 1 = e.children.length)
    (h : Matched (· ≤ ·) r (.ok a)) (hType : nodeType e [a] = .ok ty) :
    Matched (· ≤ ·) (r >>= fun t => nodeType e [t]) (.ok ty) := by
  have hNode := matched_bind h (f := fun t => nodeType e [t]) (g := fun t => nodeType e [t])
    fun _ _ hTy => nodeType_matched hLength (.cons hTy .nil)
  rwa [ok_bind, hType] at hNode

theorem matched_node_two {a b : Ty} {r r' : Except TypeError Ty} (hLength : 2 = e.children.length)
    (h : Matched (· ≤ ·) r (.ok a)) (h' : Matched (· ≤ ·) r' (.ok b))
    (hType : nodeType e [a, b] = .ok ty) :
    Matched (· ≤ ·) (r >>= fun t => r' >>= fun t' => nodeType e [t, t']) (.ok ty) := by
  have hNode := matched_bind h (f := fun t => r' >>= fun t' => nodeType e [t, t'])
    (g := fun t => Except.ok b >>= fun t' => nodeType e [t, t']) fun _ _ hTy =>
      matched_bind h' fun _ _ hTy' => nodeType_matched hLength (.cons hTy (.cons hTy' .nil))
  rwa [ok_bind, ok_bind, hType] at hNode

namespace Environment

theorem inferAllUnder_admitted {members : List (Expr × Ty)}
    (h : ∀ m ∈ members, Matched (· ≤ ·) (env.inferUnder vars m.1) (.ok m.2)) :
    Matched (fun types types' => List.Forall₂ (· ≤ ·) types types' ∧ types.length = members.length)
      (env.inferAllUnder vars (members.map (·.1))) (.ok (members.map (·.2))) := by
  induction members with
  | nil => exact matched_ok ⟨.nil, rfl⟩
  | cons m members ih =>
    obtain ⟨hHead, hMore⟩ := List.forall_mem_cons.mp h
    intro types hTypes
    obtain ⟨headType, hHeadType, hRest⟩ := ok_of_bind hTypes
    obtain ⟨tailTypes, hTailTypes, hPure⟩ := ok_of_bind hRest
    obtain rfl := Except.ok.inj hPure
    obtain ⟨_, hSame, hLe⟩ := hHead headType hHeadType
    obtain ⟨_, hSameTail, hLeTail, hLength⟩ := ih hMore tailTypes hTailTypes
    cases hSame
    cases hSameTail
    exact ⟨_, rfl, .cons hLe hLeTail, by simp [hLength]⟩

/-- In an environment an expression has no wider type than the one it was written with. -/
theorem inferUnder_admitted (h : e.Written ty) :
    Matched (· ≤ ·) (env.inferUnder vars e) (.ok ty) := by
  induction h generalizing vars with
  | literal => exact matched_ok (Ty.le_refl _)
  | var | ownField => exact matched_any _
  | field _ _ _ hType _ =>
    rw [type_of_field hType]
    exact matched_any _
  | index _ _ _ _ hType ihBase ihPosition => exact matched_node_two rfl ihBase ihPosition hType
  | range _ _ hType ihLower ihUpper => exact matched_node_two rfl ihLower ihUpper hType
  | binary _ _ hType ihLeft ihRight => exact matched_node_two rfl ihLeft ihRight hType
  | call _ _ hType ih => exact matched_node_one rfl ih hType
  | not _ hType ih => exact matched_node_one rfl ih hType
  | neg _ _ hType ih => exact matched_node_one rfl ih hType
  | @set members _ _ _ hType ih =>
    have hMembers : ∀ m ∈ members, Matched (· ≤ ·) (env.inferUnder vars m.1) (.ok m.2) :=
      fun m hm => ih m hm
    have hNode := matched_bind (inferAllUnder_admitted hMembers)
      (f := nodeType (.set (members.map (·.1)))) (g := nodeType (.set (members.map (·.1))))
      fun types types' hTypes =>
        nodeType_matched (by simpa [Expr.children] using hTypes.2) hTypes.1
    rwa [ok_bind, hType] at hNode
  | quantified _ _ _ hType ihDomain ihBody =>
    -- The body is read with the variable in the environment, which depends on the domain.
    intro answer hAnswer
    obtain ⟨domainType, hDomain, hRest⟩ := ok_of_bind hAnswer
    obtain ⟨bodyType, hBody, hNode⟩ := ok_of_bind hRest
    obtain ⟨_, hSame, hLeDomain⟩ := ihDomain domainType hDomain
    obtain ⟨_, hSame', hLeBody⟩ := ihBody bodyType hBody
    cases hSame
    cases hSame'
    obtain ⟨wide, hWide, hLe⟩ :=
      nodeType_matched rfl (.cons hLeDomain (.cons hLeBody .nil)) answer hNode
    obtain rfl := Except.ok.inj (hWide.symm.trans hType)
    exact ⟨wide, rfl, hLe⟩

/-- What is a condition in some environment may stand as a guard. -/
theorem expect_of_checkCondition (role : Role) (h : e.Written ty)
    (hCheck : env.checkCondition e = .ok ()) : expect role (.only .bool) ty e = .ok () := by
  obtain ⟨narrow, hInfer, hExpect⟩ := ok_of_bind hCheck
  obtain ⟨_, hSame, hLe⟩ := inferUnder_admitted h narrow hInfer
  cases hSame
  exact expect_eq_ok_iff.mpr
    (Kinds.admits_mono hLe.1 (Kinds.le_refl _) (expect_eq_ok_iff.mp hExpect))

/-- Without schemas the topic of the message at hand makes no difference. -/
theorem inferUnder_topic (topic topic' : Option String) (aliases : List (String × String)) :
    (Environment.mk topic aliases none).inferUnder vars e =
      (Environment.mk topic' aliases none).inferUnder vars e := by
  induction e generalizing vars with
  | vacuous | literal | this | var => rfl
  | field base name ih =>
    rw [inferUnder, inferUnder, ih]
    rfl
  | call _ a ih | unary _ a ih => rw [inferUnder, inferUnder, ih]
  | index a b ihA ihB | range a b _ _ ihA ihB | binary _ a b ihA ihB =>
    rw [inferUnder, inferUnder, ihA, ihB]
  | set members ih =>
    rw [inferUnder, inferUnder, inferAllUnder_congr fun m hMember => ih m hMember]
  | quantified quantifier bound domain body ihDomain ihBody =>
    simp only [inferUnder, ihDomain, ihBody]

theorem checkCondition_topic (topic topic' : Option String) (aliases : List (String × String))
    (e : Expr) : (Environment.mk topic aliases none).checkCondition e =
      (Environment.mk topic' aliases none).checkCondition e := by
  rw [checkCondition, checkCondition, infer, infer, inferUnder_topic topic topic']

end Environment
end TopicSpec.Typing
