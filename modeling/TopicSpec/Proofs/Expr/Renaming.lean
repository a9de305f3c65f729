import TopicSpec.Proofs.Expr.Occurrence

/-! # Renaming of variables

The variable of a quantifier may be any name that does not occur in the expression: the free names
are the same, and no variable is hidden that was not hidden before. -/

namespace TopicSpec.Expr
set_option autoImplicit false

/-- The renaming of the names that are free in the body of a quantifier. -/
def inBody (bound : String) (σ : String → String) (name : String) : String :=
  if name = bound then name else σ name

mutual
/-- Renames the names that occur free. Quantifiers keep their variables. -/
def renameFree (σ : String → String) : Expr → Expr
  | vacuous => vacuous
  | literal l => literal l
  | var name => var (σ name)
  | this => this
  | field base name => field (base.renameFree σ) name
  | index base position => index (base.renameFree σ) (position.renameFree σ)
  | call function argument => call function (argument.renameFree σ)
  | set members => set (renameFreeAll σ members)
  | range lower upper excludeLower excludeUpper =>
    range (lower.renameFree σ) (upper.renameFree σ) excludeLower excludeUpper
  | unary op operand => unary op (operand.renameFree σ)
  | binary op left right => binary op (left.renameFree σ) (right.renameFree σ)
  | quantified quantifier bound domain body =>
    quantified quantifier bound (domain.renameFree σ) (body.renameFree (inBody bound σ))

def renameFreeAll (σ : String → String) : List Expr → List Expr
  | [] => []
  | e :: es => e.renameFree σ :: renameFreeAll σ es
end

/-- Gives one name another. -/
def renameOne (old new : String) (name : String) : String := if name = old then new else name

/-- The second expression is the first but for one quantifier, whose variable is `fresh` in it, as
is every occurrence that the quantifier binds. -/
inductive Rebinds (fresh : String) : Expr → Expr → Prop where
  | here (quantifier : Quantifier) (bound : String) (domain body : Expr) :
    Rebinds fresh (quantified quantifier bound domain body)
      (quantified quantifier fresh domain (body.renameFree (renameOne bound fresh)))
  | field {base base' : Expr} (name : String) :
    Rebinds fresh base base' → Rebinds fresh (field base name) (field base' name)
  | base {base base' : Expr} (position : Expr) :
    Rebinds fresh base base' → Rebinds fresh (index base position) (index base' position)
  | position {position position' : Expr} (base : Expr) :
    Rebinds fresh position position' → Rebinds fresh (index base position) (index base position')
  | call {argument argument' : Expr} (function : String) :
    Rebinds fresh argument argument' →
    Rebinds fresh (call function argument) (call function argument')
  | member {m m' : Expr} (before after : List Expr) :
    Rebinds fresh m m' → Rebinds fresh (set (before ++ m :: after)) (set (before ++ m' :: after))
  | lower {lower lower' : Expr} (upper : Expr) (excludeLower excludeUpper : Bool) :
    Rebinds fresh lower lower' → Rebinds fresh (range lower upper excludeLower excludeUpper)
      (range lower' upper excludeLower excludeUpper)
  | upper {upper upper' : Expr} (lower : Expr) (excludeLower excludeUpper : Bool) :
    Rebinds fresh upper upper' → Rebinds fresh (range lower upper excludeLower excludeUpper)
      (range lower upper' excludeLower excludeUpper)
  | operand {operand operand' : Expr} (op : UnaryOp) :
    Rebinds fresh operand operand' → Rebinds fresh (unary op operand) (unary op operand')
  | left {left left' : Expr} (op : BinaryOp) (right : Expr) :
    Rebinds fresh left left' → Rebinds fresh (binary op left right) (binary op left' right)
  | right {right right' : Expr} (op : BinaryOp) (left : Expr) :
    Rebinds fresh right right' → Rebinds fresh (binary op left right) (binary op left right')
  | domain {domain domain' : Expr} (quantifier : Quantifier) (bound : String) (body : Expr) :
    Rebinds fresh domain domain' → Rebinds fresh (quantified quantifier bound domain body)
      (quantified quantifier bound domain' body)
  | body {body body' : Expr} (quantifier : Quantifier) (bound : String) (domain : Expr) :
    Rebinds fresh body body' → Rebinds fresh (quantified quantifier bound domain body)
      (quantified quantifier bound domain body')

/-- The name is neither referred to nor bound. -/
structure Avoids (e : Expr) (name : String) : Prop where
  refers : ∀ scope, ¬e.Within scope (.var name)
  binds : ∀ scope, ¬e.Binds scope name

section
variable {e e' : Expr} {name bound fresh : String} {σ : String → String}
  {aliases around : List String}

theorem avoids_iff :
    e.Avoids name ↔ e ≠ .var name ∧
      (∀ quantifier domain body, e ≠ .quantified quantifier name domain body) ∧
      ∀ part ∈ e.parts, part.2.Avoids name := by
  constructor
  · rintro ⟨hRefers, hBinds⟩
    refine ⟨?_, ?_, fun part hPart => ⟨fun _ hWithin => ?_, fun scope hInner => ?_⟩⟩
    · rintro rfl
      exact hRefers [] (.self _)
    · rintro quantifier domain body rfl
      exact hBinds [] ⟨quantifier, domain, body, .self _⟩
    · exact hRefers _ (.inside hPart hWithin)
    · exact hBinds _ (binds_iff.mpr (.inr ⟨part, hPart, scope, rfl, hInner⟩))
  · rintro ⟨hVar, hQuantified, hParts⟩
    refine ⟨fun scope hWithin => ?_, fun scope hBinds => ?_⟩
    · rcases within_iff.mp hWithin with ⟨-, rfl⟩ | ⟨part, hPart, _, -, hInner⟩
      · exact hVar rfl
      · exact (hParts part hPart).refers _ hInner
    · rcases binds_iff.mp hBinds with ⟨-, _, _, _, rfl⟩ | ⟨part, hPart, _, -, hInner⟩
      · exact hQuantified _ _ _ rfl
      · exact (hParts part hPart).binds _ hInner

theorem Avoids.parts (h : e.Avoids name) : ∀ part ∈ e.parts, part.2.Avoids name :=
  (avoids_iff.mp h).2.2

theorem Avoids.not_free (h : e.Avoids name) : ¬e.Free name :=
  fun ⟨scope, hWithin, _⟩ => h.refers scope hWithin

theorem Avoids.ne_bound {quantifier : Quantifier} {domain body : Expr}
    (h : (quantified quantifier bound domain body).Avoids name) : name ≠ bound := by
  rintro rfl
  exact (avoids_iff.mp h).2.1 quantifier domain body rfl

/-- Names are kept or renamed to such as do not occur. -/
def Fresh (σ : String → String) (e : Expr) : Prop := ∀ name, σ name = name ∨ e.Avoids (σ name)

theorem Fresh.parts (h : Fresh σ e) : ∀ part ∈ e.parts, Fresh σ part.2 :=
  fun part hPart name => (h name).imp_right fun hAvoids => hAvoids.parts part hPart

theorem Fresh.inBody (h : Fresh σ e) (bound : String) : Fresh (inBody bound σ) e := by
  intro name
  unfold Expr.inBody
  split
  · exact .inl rfl
  · exact h name

theorem Fresh.ne_bound {quantifier : Quantifier} {domain body : Expr}
    (h : Fresh σ (quantified quantifier bound domain body)) (hName : name ≠ bound) :
    σ name ≠ bound := by
  rcases h name with hSame | hAvoids
  · rwa [hSame]
  · exact hAvoids.ne_bound

theorem fresh_renameOne (h : e.Avoids fresh) : Fresh (renameOne bound fresh) e := by
  intro name
  unfold renameOne
  split
  · exact .inr h
  · exact .inl rfl

theorem renameFreeAll_eq_map (σ : String → String) (members : List Expr) :
    renameFreeAll σ members = members.map (renameFree σ) := by
  induction members with
  | nil => rfl
  | cons m members ih => rw [renameFreeAll, ih, List.map_cons]

/-! ## Free names -/

theorem freeOccurrences_renameFree (h : Fresh σ e) :
    (e.renameFree σ).freeOccurrences = e.freeOccurrences.map σ := by
  induction e generalizing σ with
  | vacuous | literal _ | this => rfl
  | var _ => rfl
  | field base _ ih | call _ base ih | unary _ base ih =>
    have hPart : Fresh σ base := by simpa [Expr.parts, children] using h.parts
    simp only [renameFree, freeOccurrences, ih hPart]
  | index a b ihA ihB | range a b _ _ ihA ihB | binary _ a b ihA ihB =>
    obtain ⟨hA, hB⟩ : Fresh σ a ∧ Fresh σ b := by simpa [Expr.parts, children] using h.parts
    simp only [renameFree, freeOccurrences, ihA hA, ihB hB, List.map_append]
  | set members ih =>
    have hMembers : ∀ m ∈ members, (m.renameFree σ).freeOccurrences = m.freeOccurrences.map σ :=
      fun m hMember => ih m hMember (h.parts _ (List.mem_map_of_mem hMember))
    rw [renameFree, freeOccurrences, freeOccurrences, freeOccurrencesAll_eq_flatMap,
      freeOccurrencesAll_eq_flatMap, renameFreeAll_eq_map, List.flatMap_map, List.map_flatMap]
    exact congrArg List.flatten (List.map_congr_left hMembers)
  | quantified quantifier bound domain body ihDomain ihBody =>
    obtain ⟨hDomain, hBody⟩ : Fresh σ domain ∧ Fresh σ body := by
      simpa [Expr.parts] using h.parts
    -- What the quantifier binds is left alone, and nothing else becomes its variable.
    have hKept : ∀ name, inBody bound σ name ≠ bound ↔ name ≠ bound := by
      intro name
      unfold inBody
      split
      · rfl
      · rename_i hName
        exact iff_of_true (h.ne_bound hName) hName
    have hFilter : (· != bound) ∘ inBody bound σ = (· != bound) := by
      funext name
      exact Bool.eq_iff_iff.mpr (by simpa using hKept name)
    have hMap : (body.freeOccurrences.filter (· != bound)).map (inBody bound σ) =
        (body.freeOccurrences.filter (· != bound)).map σ := by
      refine List.map_congr_left fun name hMember => if_neg ?_
      simpa using (List.mem_filter.mp hMember).2
    rw [renameFree, freeOccurrences, freeOccurrences, ihDomain hDomain,
      ihBody (hBody.inBody bound), List.map_append, List.filter_map, hFilter, hMap]

/-- The free names stay, in their order. -/
theorem Rebinds.freeOccurrences (h : Rebinds fresh e e') (hAvoids : e.Avoids fresh) :
    e'.freeOccurrences = e.freeOccurrences := by
  induction h with
  | here quantifier bound domain body =>
    have hBody : body.Avoids fresh := hAvoids.parts (some bound, body) (by simp [Expr.parts])
    have hKept : ∀ name ∈ body.freeOccurrences,
        ((· != fresh) ∘ renameOne bound fresh) name = (name != bound) := by
      intro name hOccurs
      have hName : name ≠ fresh := by
        rintro rfl
        exact hBody.not_free (mem_freeOccurrences_iff.mp hOccurs)
      by_cases h : name = bound
      · simp [renameOne, h]
      · rw [Function.comp, renameOne, if_neg h, bne_iff_ne.mpr hName, bne_iff_ne.mpr h]
    have hSame : (body.freeOccurrences.filter (· != bound)).map (renameOne bound fresh) =
        body.freeOccurrences.filter (· != bound) := by
      refine (List.map_congr_left fun name hMember => if_neg ?_).trans (List.map_id' _)
      simpa using (List.mem_filter.mp hMember).2
    rw [Expr.freeOccurrences, Expr.freeOccurrences,
      freeOccurrences_renameFree (fresh_renameOne hBody), List.filter_map,
      List.filter_congr hKept, hSame]
  | field _ _ ih | call _ _ ih | operand _ _ ih =>
    have hPart := hAvoids.parts _ List.mem_cons_self
    simp only [Expr.freeOccurrences, ih hPart]
  | base _ _ ih | lower _ _ _ _ ih | left _ _ _ ih | domain _ _ _ _ ih =>
    have hPart := hAvoids.parts _ List.mem_cons_self
    simp only [Expr.freeOccurrences, ih hPart]
  | position _ _ ih | upper _ _ _ _ ih | right _ _ _ ih | body _ _ _ _ ih =>
    have hPart := hAvoids.parts _ (List.mem_cons_of_mem _ List.mem_cons_self)
    simp only [Expr.freeOccurrences, ih hPart]
  | @member m m' before after _ ih =>
    have hPart := hAvoids.parts (none, m) (List.mem_map_of_mem (by simp [children]))
    simp only [Expr.freeOccurrences, freeOccurrencesAll_eq_flatMap, List.flatMap_append,
      List.flatMap_cons, ih hPart]

/-! ## Hidden variables -/

/-- Only the variables of quantifiers count. -/
theorem checkShadowing_renameFree (e : Expr) (σ : String → String) (aliases around : List String) :
    (e.renameFree σ).checkShadowing aliases around = e.checkShadowing aliases around := by
  induction e generalizing σ around with
  | vacuous | literal _ | this | var _ => rfl
  | field base _ ih | call _ base ih | unary _ base ih => exact ih σ around
  | index a b ihA ihB | range a b _ _ ihA ihB | binary _ a b ihA ihB =>
    rw [renameFree, checkShadowing, checkShadowing, ihA, ihB]
  | set members ih =>
    rw [renameFree, checkShadowing, checkShadowing, renameFreeAll_eq_map]
    induction members with
    | nil => rfl
    | cons m members ihMembers =>
      obtain ⟨hHead, hTail⟩ := List.forall_mem_cons.mp ih
      rw [List.map_cons, checkShadowingAll, checkShadowingAll, hHead, ihMembers hTail]
  | quantified quantifier bound domain body ihDomain ihBody =>
    rw [renameFree, checkShadowing, checkShadowing, ihDomain, ihBody]

theorem Rebinds.checkShadowing (h : Rebinds fresh e e') (hAvoids : e.Avoids fresh)
    (hAliases : fresh ∉ aliases) (hAround : fresh ∉ around)
    (hCheck : e.checkShadowing aliases around = .ok ()) :
    e'.checkShadowing aliases around = .ok () := by
  induction h generalizing around with
  | here quantifier bound domain body =>
    obtain ⟨hDomain, -, -, hBody⟩ := checkShadowing_quantified_eq_ok_iff.mp hCheck
    refine checkShadowing_quantified_eq_ok_iff.mpr ⟨hDomain, hAliases, hAround, ?_⟩
    rw [checkShadowing_renameFree]
    refine checkShadowing_eq_ok_iff.mpr fun scope name hBinds => ?_
    obtain ⟨hAlias, hBound, hScope⟩ := checkShadowing_eq_ok_iff.mp hBody scope name hBinds
    have hBodyAvoids : body.Avoids fresh := hAvoids.parts (some bound, body) (by simp [Expr.parts])
    refine ⟨hAlias, ?_, hScope⟩
    rintro (_ | ⟨_, hOuter⟩)
    · exact hBodyAvoids.binds scope hBinds
    · exact hBound (List.mem_cons_of_mem _ hOuter)
  | field _ _ ih | call _ _ ih | operand _ _ ih =>
    exact ih (hAvoids.parts _ List.mem_cons_self) hAround hCheck
  | base _ _ ih | lower _ _ _ _ ih | left _ _ _ ih =>
    obtain ⟨hFirst, hSecond⟩ := seq_eq_ok_iff.mp hCheck
    exact seq_eq_ok_iff.mpr ⟨ih (hAvoids.parts _ List.mem_cons_self) hAround hFirst, hSecond⟩
  | position _ _ ih | upper _ _ _ _ ih | right _ _ _ ih =>
    obtain ⟨hFirst, hSecond⟩ := seq_eq_ok_iff.mp hCheck
    have hPart := hAvoids.parts _ (List.mem_cons_of_mem _ List.mem_cons_self)
    exact seq_eq_ok_iff.mpr ⟨hFirst, ih hPart hAround hSecond⟩
  | @member m m' before after _ ih =>
    have hPart := hAvoids.parts (none, m) (List.mem_map_of_mem (by simp [children]))
    have hMembers := checkShadowingAll_eq_ok_iff.mp hCheck
    refine checkShadowingAll_eq_ok_iff.mpr fun n hMember => ?_
    rcases List.mem_append.mp hMember with hBefore | hRest
    · exact hMembers n (List.mem_append_left _ hBefore)
    · rcases List.mem_cons.mp hRest with rfl | hAfter
      · exact ih hPart hAround (hMembers m (by simp))
      · exact hMembers n (by simp [hAfter])
  | domain _ _ _ _ ih =>
    obtain ⟨hDomain, hRest⟩ := checkShadowing_quantified_eq_ok_iff.mp hCheck
    have hPart := hAvoids.parts _ List.mem_cons_self
    exact checkShadowing_quantified_eq_ok_iff.mpr ⟨ih hPart hAround hDomain, hRest⟩
  | body _ bound _ _ ih =>
    obtain ⟨hDomain, hAlias, hBound, hBody⟩ := checkShadowing_quantified_eq_ok_iff.mp hCheck
    have hPart := hAvoids.parts _ (List.mem_cons_of_mem _ List.mem_cons_self)
    have hInside : fresh ∉ bound :: around := by simp [hAvoids.ne_bound, hAround]
    exact checkShadowing_quantified_eq_ok_iff.mpr
      ⟨hDomain, hAlias, hBound, ih hPart hInside hBody⟩

end
end TopicSpec.Expr
