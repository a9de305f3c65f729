import TopicSpec.Proofs.Grammar.OperandReading
import TopicSpec.Proofs.Typing.Demand

/-! # Reading references again

A reference is read step by step from its front, while its text is built from its end. What holds
of the rest of a reading once the reference has been read therefore holds of the whole reading. -/

namespace TopicSpec.Grammar
open Scan TopicSpec.Expr
set_option autoImplicit false

variable {resolver : Option Resolver} {inner : Inner} {g : Prop} {e : Expr} {ty : Ty}
  {s t rest : List Char}

/-- The scanner reads the positions within a reference, which are shorter than it. -/
def ReadsPositions (resolver : Option Resolver) (inner : Inner) (e : Expr) : Prop :=
  ∀ position positionType, position.Written positionType →
    position.chars.length < e.chars.length → positionType.kinds.has .number = true →
    (∀ s, afterGap false (position.chars ++ s) = position.chars ++ s) ∧
    ∀ s, Reads resolver position.SetsPlain position positionType (']' :: s)
      (inner.expr (position.chars ++ ']' :: s))

/-! ## Steps -/

/-- What reads the rest of a reference, with at most as many rounds as it has characters. -/
def Continues (resolver : Option Resolver) (inner : Inner) (condition : Prop) (e : Expr) (ty : Ty)
    (accepted : Stem → List Char → Prop) (rest : List Char) : Prop :=
  ∀ n tree, rest.length < n → Phrase.ofTree resolver tree = .ok (.expr e ty) →
    Settles condition accepted (repeatWithin (referenceStep inner) n ⟨tree, e.isIndex⟩ rest)

variable {accepted : Stem → List Char → Prop}

theorem continues_field {base : Expr} {name : String} {baseType : Ty}
    (hName : IsName name.toList) (hStops : StopsWord rest)
    (hType : Typing.nodeType (.field base name) [baseType] = .ok ty)
    (h : Continues resolver inner g (.field base name) ty accepted rest) :
    Continues resolver inner g base baseType accepted ('.' :: (name.toList ++ rest)) := by
  intro n tree hBound hTree
  obtain ⟨n, rfl⟩ : ∃ k, n = k + 1 := ⟨n - 1, by omega⟩
  have hPoint : optional (literal ".") ('.' :: (name.toList ++ rest)) =
      .accept (some ()) (name.toList ++ rest) := rfl
  have hField : require .fieldName Scan.name (name.toList ++ rest) = .accept name.toList rest :=
    require_eq_accept_iff.mpr (name_eq_accept_iff.mpr ⟨rfl, hName, hStops⟩)
  have hNode : Phrase.ofTree resolver (.node .fieldAccess [tree, .token .name name.toList]) =
      .ok (.expr (.field base name) ty) := by
    rw [SyntaxTree.token, String.ofList_toList, Phrase.ofTree_two hTree (Phrase.ofTree_leaf _)]
    exact Phrase.typed_eq_ok hType
  have hStep : referenceStep inner ⟨tree, base.isIndex⟩ ('.' :: (name.toList ++ rest)) =
      .accept (some ⟨.node .fieldAccess [tree, .token .name name.toList], false⟩) rest := by
    rw [referenceStep, bind_of_accept hPoint]
    exact bind_of_accept hField
  rw [repeatWithin, bind_of_accept hStep]
  refine h n _ ?_ hNode
  simp only [List.length_cons, List.length_append] at hBound
  omega

theorem continues_index {base position : Expr} {baseType positionType : Ty} {g' : Prop}
    (hBase : base.isIndex = false)
    (hFront : afterGap false (position.chars ++ ']' :: rest) = position.chars ++ ']' :: rest)
    (hPosition : Reads resolver g' position positionType (']' :: rest)
      (inner.expr (position.chars ++ ']' :: rest)))
    (hType : Typing.nodeType (.index base position) [baseType, positionType] = .ok ty)
    (h : Continues resolver inner g (.index base position) ty accepted rest) :
    Continues resolver inner (g' ∧ g) base baseType accepted
      ('[' :: (position.chars ++ ']' :: rest)) := by
  intro n tree hBound hTree
  obtain ⟨n, rfl⟩ : ∃ k, n = k + 1 := ⟨n - 1, by omega⟩
  have hPoint : optional (literal ".") ('[' :: (position.chars ++ ']' :: rest)) =
      .accept none ('[' :: (position.chars ++ ']' :: rest)) := rfl
  have hSkip : gap (position.chars ++ ']' :: rest) =
      .accept () (position.chars ++ ']' :: rest) := by rw [gap_eq_accept, hFront]
  have hIndex : Settles g' (fun found stop => stop = rest ∧
      Phrase.ofTree resolver found = .ok (.expr position positionType))
      (index inner ('[' :: (position.chars ++ ']' :: rest))) := by
    refine settles_bind_of_accept (a := ()) (t := position.chars ++ ']' :: rest) rfl ?_
    refine settles_bind_of_accept hSkip ?_
    refine settles_bind_pure (settles_require hPosition) ?_
    rintro found stop ⟨hGap, hFound⟩
    exact ⟨found, rest, close_eq_accept found hGap, rfl, hFound⟩
  have hStep : Settles g' (fun next? stop => ∃ next, next? = some next ∧
      (stop = rest ∧ next.indexed = true ∧
        Phrase.ofTree resolver next.tree = .ok (.expr (.index base position) ty)))
      (referenceStep inner ⟨tree, base.isIndex⟩ ('[' :: (position.chars ++ ']' :: rest))) := by
    rw [hBase, referenceStep, bind_of_accept hPoint]
    refine settles_bind_pure (settles_optional hIndex) ?_
    rintro _ stop ⟨found, rfl, rfl, hFound⟩
    refine ⟨_, _, rfl, _, rfl, rfl, rfl, ?_⟩
    rw [Phrase.ofTree_two hTree hFound]
    exact Phrase.typed_eq_ok hType
  refine settles_repeatWithin hStep ?_
  rintro ⟨next, indexed⟩ _ ⟨rfl, hIndexed, hNext⟩
  obtain rfl : indexed = true := hIndexed
  refine h n next ?_ hNext
  simp only [List.length_cons, List.length_append] at hBound
  omega

/-- After the last step, nothing follows that a reference goes on with. -/
theorem continues_ends (hEnds : Ends s) :
    Continues resolver inner True e ty
      (fun stem stop => stop = s ∧ Phrase.ofTree resolver stem.tree = .ok (.expr e ty)) s := by
  intro n tree hBound hTree
  obtain ⟨n, rfl⟩ : ∃ k, n = k + 1 := ⟨n - 1, by omega⟩
  have hPoint : optional (literal ".") s = .accept none s :=
    optional_of_declines (declines_literal fun t => hEnds.head_ne (by decide) t)
  have hBracket : optional (index inner) s = .accept none s :=
    optional_of_declines (declines_bind (declines_literal fun t => hEnds.head_ne (by decide) t))
  have hStep : referenceStep inner ⟨tree, e.isIndex⟩ s = .accept none s := by
    rw [referenceStep, bind_of_accept hPoint]
    cases e.isIndex with
    | true => rfl
    | false => exact bind_of_accept hBracket
  exact settles_of_accept (repeatWithin_of_none n hStep) trivial ⟨rfl, hTree⟩

/-! ## The whole reference -/

theorem ReadsPositions.mono {base : Expr} (h : ReadsPositions resolver inner e)
    (hLength : base.chars.length ≤ e.chars.length) : ReadsPositions resolver inner base :=
  fun position positionType hWritten hShorter =>
    h position positionType hWritten (Nat.lt_of_lt_of_le hShorter hLength)

theorem ne_this_of_isReference (h : e.isReference = true) : e ≠ .this := by
  rintro rfl
  cases h

theorem settles_reference (hWritten : e.Written ty) (hReference : e.isReference = true)
    (hPositions : ReadsPositions resolver inner e) (hStops : StopsWord rest)
    (hRest : Continues resolver inner g e ty accepted rest) :
    Settles (e.SetsPlain ∧ g) accepted
      ((orElse variableReference ownField >>= fun base =>
        repeated (referenceStep inner) ⟨base, false⟩) (e.chars ++ rest)) := by
  induction hWritten generalizing rest g with
  | @var name hName =>
    have hIdentifier : require .variableName identifier (name.toList ++ rest) =
        .accept name.toList rest :=
      require_eq_accept_iff.mpr (identifier_eq_accept_iff.mpr ⟨rfl, hName, hStops⟩)
    have hVariable : variableReference ('@' :: (name.toList ++ rest)) =
        .accept (.node .variableReference [.token .name name.toList]) rest := by
      have hMark : literal "@" ('@' :: (name.toList ++ rest)) =
          .accept () (name.toList ++ rest) := rfl
      rw [variableReference, bind_of_accept hMark]
      exact bind_of_accept hIdentifier
    have hTree : Phrase.ofTree resolver (.node .variableReference [.token .name name.toList]) =
        .ok (.expr (.var name) .any) := by
      rw [SyntaxTree.token, String.ofList_toList]
      rfl
    have hBase : orElse variableReference ownField ('@' :: (name.toList ++ rest)) =
        .accept (.node .variableReference [.token .name name.toList]) rest := by
      rw [orElse, hVariable]
    rw [chars_var]
    refine settles_bind_of_accept hBase ?_
    refine (hRest (rest.length + 1) _ (Nat.lt_succ_self _) hTree).imp ?_ fun _ _ h => h
    exact (and_iff_right (setsPlain_var name)).symm
  | @ownField name hName =>
    have hDeclines : Declines variableReference (name.toList ++ rest) := by
      obtain ⟨c, more, hText, hStart, -⟩ := hName.1
      rw [hText]
      refine declines_bind (declines_literal_of_head rfl ?_)
      rintro rfl
      cases hStart
    have hTree : Phrase.ofTree resolver (.node .ownField [.token .name name.toList]) =
        .ok (.expr (.field .this name) .any) := by
      rw [SyntaxTree.token, String.ofList_toList]
      rfl
    have hBase : orElse variableReference ownField (name.toList ++ rest) =
        .accept (.node .ownField [.token .name name.toList]) rest := by
      rw [orElse_of_declines hDeclines]
      exact bind_of_accept (name_eq_accept_iff.mpr ⟨rfl, hName, hStops⟩)
    rw [chars_ownField]
    refine settles_bind_of_accept hBase ?_
    refine (hRest (rest.length + 1) _ (Nat.lt_succ_self _) hTree).imp ?_ fun _ _ h => h
    exact (and_iff_right (setsPlain_field.mpr setsPlain_this)).symm
  | @field base name baseType ty hBase hBaseWritten hName hType ih =>
    have hText := chars_field rest (ne_this_of_isReference hBase) name
    have hShorter : base.chars.length ≤ (Expr.field base name).chars.length := by
      rw [length_field (ne_this_of_isReference hBase)]
      omega
    rw [hText]
    refine (ih hBase (hPositions.mono hShorter) (stops_cons_iff.mpr (by decide))
      (continues_field hName hStops hType hRest)).imp ?_ fun _ _ h => h
    rw [setsPlain_field]
  | @index base position baseType positionType ty hBase hIndex hBaseWritten hPosition hType ih _ =>
    have hLength := length_index base position
    have hNumber := Typing.number_of_index hType
    obtain ⟨hFront, hRead⟩ := hPositions position positionType hPosition (by omega) hNumber
    rw [chars_index]
    refine (ih hBase (hPositions.mono (by omega)) (stops_cons_iff.mpr (by decide))
      (continues_index hIndex (hFront _) (hRead rest) hType hRest)).imp ?_ fun _ _ h => h
    rw [setsPlain_index, and_assoc]
  | _ => cases hReference

/-- A reference begins with a variable, or with a name that is not that of a function. -/
theorem front_of_reference (hWritten : e.Written ty) (hReference : e.isReference = true)
    (hStops : StopsWord rest) (hOpen : ∀ t, afterGap false rest ≠ '(' :: t) :
    (∃ t, e.chars ++ rest = '@' :: t) ∨ ∃ name t, e.chars ++ rest = name ++ t ∧ IsName name ∧
      StopsWord t ∧ ∀ u, afterGap false t ≠ '(' :: u := by
  induction hWritten generalizing rest with
  | @var name _ => exact .inl ⟨name.toList ++ rest, chars_var rest name⟩
  | @ownField name hName => exact .inr ⟨name.toList, rest, rfl, hName, hStops, hOpen⟩
  | @field base name _ _ hBase _ _ _ ih =>
    rw [chars_field rest (ne_this_of_isReference hBase)]
    exact ih hBase (stops_cons_iff.mpr (by decide)) (by simp [afterGap, isGapChar])
  | @index base position _ _ _ hBase _ _ _ _ ih _ =>
    rw [chars_index]
    exact ih hBase (stops_cons_iff.mpr (by decide)) (by simp [afterGap, isGapChar])
  | _ => cases hReference

theorem readsTo_reference (hWritten : e.Written ty) (hReference : e.isReference = true)
    (hPositions : ReadsPositions resolver inner e) (hEnds : Ends s) :
    ReadsTo resolver e.SetsPlain e ty s (operand inner (e.chars ++ s)) := by
  have hOperand : operand inner (e.chars ++ s) =
      expecting .value (reference inner) (e.chars ++ s) := by
    rcases front_of_reference hWritten hReference hEnds.stopsWord hEnds.no_parenthesis with
      ⟨t, hText⟩ | ⟨name, t, hText, hName, hStops, hOpen⟩
    · rw [hText]
      rfl
    · rw [hText, operand_of_name hName hStops]
      have hCall : Declines (functionCall inner) (name ++ t) := by
        refine declines_bind_of_accept (name_eq_accept_iff.mpr ⟨rfl, hName, hStops⟩) ?_
        refine declines_bind_of_accept (gap_eq_accept t) ?_
        exact declines_bind (declines_literal hOpen)
      exact expecting_congr (firstOf_of_declines hCall)
  have hRead := settles_reference hWritten hReference hPositions hEnds.stopsWord
    (continues_ends hEnds)
  rw [hOperand]
  refine settles_expecting ?_
  rw [reference, ← bind_assoc]
  refine settles_bind_pure (hRead.imp (and_iff_left trivial) fun _ _ h => h) ?_
  rintro stem _ ⟨rfl, hTree⟩
  exact ⟨stem.tree, _, rfl, rfl, hTree⟩

end TopicSpec.Grammar
