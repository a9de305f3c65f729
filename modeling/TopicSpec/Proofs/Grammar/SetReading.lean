import TopicSpec.Proofs.Grammar.OperandReading

/-! # Reading sets again

A member that is a condition stops the reading of its set: what follows its first operand is
neither a separator nor the end of the set. -/

namespace TopicSpec.Grammar
open Scan
set_option autoImplicit false

variable {resolver : Option Resolver} {inner : Inner} {s t rest : List Char}

/-- The characters of the further members, each with its separator. -/
def furtherChars (members : List (Expr × Ty)) : List Char :=
  members.flatMap fun m => ',' :: ' ' :: m.1.chars

/-- A value in which every set has values for members. -/
def IsPlainValue (e : Expr) : Prop := e.isCondition = false ∧ e.SetsPlain

/-- The mark at which the reading of a set could go on is missing. -/
def Stuck (rest : List Char) : Prop := ∀ t, rest ≠ ',' :: t ∧ rest ≠ '\x7d' :: t

/-- A plain value is read up to the mark behind it; anything else is rejected, or its reading ends
at no mark of the set. -/
def ReadsMember (resolver : Option Resolver) (m : Expr × Ty) (left : List Char) :
    Outcome SyntaxTree → Prop
  | .accept tree rest =>
    (IsPlainValue m.1 ∧ afterGap false rest = left ∧
      Phrase.ofTree resolver tree = .ok (.expr m.1 m.2)) ∨
      ¬IsPlainValue m.1 ∧ Stuck (afterGap false rest)
  | .reject _ _ _ => ¬IsPlainValue m.1

theorem readsMember_of_reads {m : Expr × Ty} {o : Outcome SyntaxTree}
    (hValue : m.1.isCondition = false) (h : Reads resolver m.1.SetsPlain m.1 m.2 t o) :
    ReadsMember resolver m t o := by
  cases o with
  | accept tree rest => exact .inl ⟨⟨hValue, h.1⟩, h.2⟩
  | reject committed expected rest =>
    cases committed with
    | true => exact fun hPlain => h hPlain.2
    | false => exact absurd h id

/-! ## Further members -/

/-- The members up to the closing brace, or no closing brace behind what has been read. -/
def ReadsMembers (resolver : Option Resolver) (members : List (Expr × Ty)) (left : List Char) :
    Outcome (List SyntaxTree) → Prop
  | .accept trees rest =>
    ((∀ m ∈ members, IsPlainValue m.1) ∧ afterGap false rest = '\x7d' :: left ∧
      List.Forall₂ (fun tree phrase => Phrase.ofTree resolver tree = .ok phrase) trees
        (members.map fun m => .expr m.1 m.2)) ∨
      (¬∀ m ∈ members, IsPlainValue m.1) ∧ ∀ t, afterGap false rest ≠ '\x7d' :: t
  | .reject _ _ _ => ¬∀ m ∈ members, IsPlainValue m.1

theorem manyWithin_of_none {α : Type} {step : Scan (Option α)} (n : Nat)
    (h : step s = .accept none s) : manyWithin step n s = .accept [] s := by
  cases n with
  | zero => rfl
  | succ n =>
    rw [manyWithin, bind_apply, h]
    rfl

theorem furtherMember_declines (h : ∀ t, afterGap false rest ≠ ',' :: t) :
    optional (furtherMember inner) rest = .accept none rest := by
  refine optional_of_declines (declines_bind_of_accept (gap_eq_accept rest) ?_)
  exact declines_bind (declines_literal h)

theorem furtherMember_eq (hMark : afterGap false rest = ',' :: ' ' :: t)
    (hFront : afterGap false t = t) : furtherMember inner rest = inner.expr t := by
  have hGap : gap rest = .accept () (',' :: ' ' :: t) := by rw [gap_eq_accept, hMark]
  have hBlank : gap (' ' :: t) = .accept () t := by
    show Outcome.accept () (afterGap false t) = _
    rw [hFront]
  have hComma : literal "," (',' :: ' ' :: t) = .accept () (' ' :: t) := rfl
  rw [furtherMember, bind_of_accept hGap, bind_of_accept hComma, bind_of_accept hBlank]

/-- A loop goes on unless its step declines. -/
theorem manyWithin_succ {α : Type} {p : Scan α} {n : Nat} (h : ¬Declines p s) :
    manyWithin (optional p) (n + 1) s =
      (p >>= fun a => manyWithin (optional p) n >>= fun more => pure (a :: more)) s := by
  rw [manyWithin, bind_apply, bind_apply, Scan.optional]
  cases hp : p s with
  | accept a rest => rfl
  | reject committed expected rest =>
    cases committed with
    | true => rfl
    | false => exact absurd ⟨expected, rest, hp⟩ h

/-- A member, and then the loop over the further ones, with whatever bound. -/
theorem readsMembers_bind {m : Expr × Ty} {members : List (Expr × Ty)} {p : Scan SyntaxTree}
    {loop : Scan (List SyntaxTree)}
    (hLoop : ∀ stop, ∃ n, loop stop = manyWithin (optional (furtherMember inner)) n stop)
    (hMember : ReadsMember resolver m t (p rest))
    (hMore : ∀ stop, afterGap false stop = t → ReadsMembers resolver members s (loop stop)) :
    ReadsMembers resolver (m :: members) s
      ((p >>= fun tree => loop >>= fun more => pure (tree :: more)) rest) := by
  have hNot : ¬IsPlainValue m.1 → ¬∀ m' ∈ m :: members, IsPlainValue m'.1 :=
    fun hNot hAll => hNot (hAll m List.mem_cons_self)
  have hNot' : (¬∀ m' ∈ members, IsPlainValue m'.1) → ¬∀ m' ∈ m :: members, IsPlainValue m'.1 :=
    fun hNot hAll => hNot fun m' hm' => hAll m' (List.mem_cons_of_mem _ hm')
  rw [bind_apply]
  cases hp : p rest with
  | reject committed expected stop =>
    rw [hp] at hMember
    exact hNot hMember
  | accept tree stop =>
    rw [hp] at hMember
    dsimp only
    rw [bind_apply]
    rcases hMember with ⟨hPlain, hGap, hTree⟩ | ⟨hCondition, hStuck⟩
    · have hRest := hMore stop hGap
      cases hRun : loop stop with
      | reject committed expected last =>
        rw [hRun] at hRest
        exact hNot' hRest
      | accept trees last =>
        rw [hRun] at hRest
        rcases hRest with ⟨hAll, hEnd, hTrees⟩ | ⟨hSome, hEnd⟩
        · exact .inl ⟨List.forall_mem_cons.mpr ⟨hPlain, hAll⟩, hEnd, .cons hTree hTrees⟩
        · exact .inr ⟨hNot' hSome, hEnd⟩
    · obtain ⟨n, hBounded⟩ := hLoop stop
      rw [hBounded, manyWithin_of_none n (furtherMember_declines fun u => (hStuck u).1)]
      exact .inr ⟨hNot hCondition, fun u => (hStuck u).2⟩

theorem ends_furtherChars (members : List (Expr × Ty)) (s : List Char) :
    Ends (furtherChars members ++ '\x7d' :: s) ∧
      afterGap false (furtherChars members ++ '\x7d' :: s) =
        furtherChars members ++ '\x7d' :: s := by
  cases members with
  | nil => exact ⟨ends_mark (by decide), rfl⟩
  | cons m members => exact ⟨ends_mark (by decide), rfl⟩

theorem readsMembers_manyWithin {members : List (Expr × Ty)} {n : Nat}
    (hFront : ∀ m ∈ members, ∀ t, afterGap false (m.1.chars ++ t) = m.1.chars ++ t)
    (hRead : ∀ m ∈ members, ∀ t, Ends t →
      ReadsMember resolver m (afterGap false t) (inner.expr (m.1.chars ++ t)))
    (hBound : members.length ≤ n)
    (hRest : afterGap false rest = furtherChars members ++ '\x7d' :: s) :
    ReadsMembers resolver members s (manyWithin (optional (furtherMember inner)) n rest) := by
  induction members generalizing n rest with
  | nil =>
    have hEnd : ∀ t, afterGap false rest ≠ ',' :: t := by
      intro t
      rw [hRest]
      simp [furtherChars]
    rw [manyWithin_of_none n (furtherMember_declines hEnd)]
    exact .inl ⟨by simp, hRest, .nil⟩
  | cons m members ih =>
    obtain ⟨n, rfl⟩ : ∃ k, n = k + 1 := ⟨n - 1, by rw [List.length_cons] at hBound; omega⟩
    obtain ⟨hEnds, hGap⟩ := ends_furtherChars members s
    have hMark : afterGap false rest =
        ',' :: ' ' :: (m.1.chars ++ (furtherChars members ++ '\x7d' :: s)) := by
      rw [hRest]
      simp [furtherChars]
    have hMember := hRead m List.mem_cons_self _ hEnds
    rw [hGap, ← furtherMember_eq hMark (hFront m List.mem_cons_self _)] at hMember
    by_cases hDeclines : Declines (furtherMember inner) rest
    · obtain ⟨expected, stop, hReject⟩ := hDeclines
      rw [manyWithin_of_none _ (optional_of_declines ⟨expected, stop, hReject⟩)]
      rw [hReject] at hMember
      refine .inr ⟨fun hAll => hMember (hAll m List.mem_cons_self), fun u => ?_⟩
      rw [hMark]
      simp
    · rw [manyWithin_succ hDeclines]
      refine readsMembers_bind (fun _ => ⟨n, rfl⟩) hMember fun stop hStop => ?_
      exact ih (fun m' hm' => hFront m' (List.mem_cons_of_mem _ hm'))
        (fun m' hm' => hRead m' (List.mem_cons_of_mem _ hm')) (by simpa using hBound) hStop

/-! ## The set -/

theorem length_le_furtherChars (members : List (Expr × Ty)) :
    members.length ≤ (furtherChars members).length := by
  induction members with
  | nil => exact Nat.le_refl _
  | cons m members ih =>
    simp only [furtherChars, List.flatMap_cons, List.length_append, List.length_cons] at ih ⊢
    omega

theorem readsMembers_members {first : Expr × Ty} {more : List (Expr × Ty)}
    (hFront : ∀ m ∈ first :: more, ∀ t, afterGap false (m.1.chars ++ t) = m.1.chars ++ t)
    (hRead : ∀ m ∈ first :: more, ∀ t, Ends t →
      ReadsMember resolver m (afterGap false t) (inner.expr (m.1.chars ++ t))) :
    ReadsMembers resolver (first :: more) s
      (members inner (first.1.chars ++ (furtherChars more ++ '\x7d' :: s))) := by
  obtain ⟨hEnds, hGap⟩ := ends_furtherChars more s
  have hFirst := hRead first List.mem_cons_self _ hEnds
  rw [hGap] at hFirst
  have hSkip : gap (first.1.chars ++ (furtherChars more ++ '\x7d' :: s)) =
      .accept () (first.1.chars ++ (furtherChars more ++ '\x7d' :: s)) := by
    rw [gap_eq_accept, hFront first List.mem_cons_self]
  rw [members, bind_of_accept hSkip]
  refine readsMembers_bind (fun stop => ⟨stop.length + 1, rfl⟩) hFirst fun stop hRest => ?_
  refine readsMembers_manyWithin (fun m hm => hFront m (List.mem_cons_of_mem _ hm))
    (fun m hm => hRead m (List.mem_cons_of_mem _ hm)) ?_ hRest
  have hLength := length_afterGap_le false stop
  rw [hRest, List.length_append] at hLength
  have hMore := length_le_furtherChars more
  omega

theorem ofTree_set {first : Expr × Ty} {more : List (Expr × Ty)} {ty : Ty}
    {trees : List SyntaxTree}
    (hType : Typing.nodeType (.set ((first :: more).map (·.1))) ((first :: more).map (·.2)) =
      .ok ty)
    (hTrees : List.Forall₂ (fun tree phrase => Phrase.ofTree resolver tree = .ok phrase) trees
      ((first :: more).map fun m => .expr m.1 m.2)) :
    Phrase.ofTree resolver (.node .enumLiteral trees) =
      .ok (.expr (.set ((first :: more).map (·.1))) ty) := by
  have hMembers : ∀ members : List (Expr × Ty),
      (members.map fun m => Phrase.expr m.1 m.2).mapM (Phrase.toExpr .enumLiteral) =
        .ok members := by
    intro members
    induction members with
    | nil => rfl
    | cons m members ih =>
      rw [List.map_cons, List.mapM_cons, ih]
      rfl
  rw [Phrase.ofTree, Phrase.ofTrees_of_forall₂ hTrees, ok_bind]
  show Phrase.ofEnumLiteral .enumLiteral _ = _
  rw [Phrase.ofEnumLiteral, hMembers, ok_bind]
  exact Phrase.typed_eq_ok hType

theorem readsTo_set {first : Expr × Ty} {more : List (Expr × Ty)} {ty : Ty}
    (hFront : ∀ m ∈ first :: more, ∀ t, afterGap false (m.1.chars ++ t) = m.1.chars ++ t)
    (hRead : ∀ m ∈ first :: more, ∀ t, Ends t →
      ReadsMember resolver m (afterGap false t) (inner.expr (m.1.chars ++ t)))
    (hType : Typing.nodeType (.set ((first :: more).map (·.1))) ((first :: more).map (·.2)) =
      .ok ty) :
    ReadsTo resolver (∀ m ∈ first :: more, IsPlainValue m.1)
      (.set ((first :: more).map (·.1))) ty s
      (operand inner ('\x7b' :: (first.1.chars ++ (furtherChars more ++ '\x7d' :: s)))) := by
  generalize hText : first.1.chars ++ (furtherChars more ++ '\x7d' :: s) = text
  have hOperand : ∃ more, operand inner ('\x7b' :: text) =
      expecting .value (firstOf (enumLiteral inner) more) ('\x7b' :: text) := ⟨_, rfl⟩
  have hSkip : gap text = .accept () text := by
    rw [← hText, gap_eq_accept, hFront first List.mem_cons_self]
  have hMembers : ReadsMembers resolver (first :: more) s (members inner text) := by
    rw [← hText]
    exact readsMembers_members hFront hRead
  obtain ⟨others, hOperand⟩ := hOperand
  rw [hOperand]
  refine settles_expecting (settles_firstOf ?_)
  refine settles_bind_of_accept (a := ()) (t := text) rfl ?_
  refine settles_bind_of_accept hSkip ?_
  rw [bind_apply, require, expecting, commit]
  cases hRun : members inner text with
  | reject committed expected rest =>
    rw [hRun] at hMembers
    exact hMembers
  | accept trees rest =>
    rw [hRun] at hMembers
    rcases hMembers with ⟨hAll, hEnd, hTrees⟩ | ⟨hSome, hEnd⟩
    · have hClose := @close_eq_accept _ _ _ .closingBrace "\x7d"
        (SyntaxTree.node .enumLiteral trees) hEnd
      exact settles_of_accept hClose hAll ⟨rfl, ofTree_set hType hTrees⟩
    · refine settles_bind_of_accept (gap_eq_accept rest) ?_
      have hDeclines : Declines (literal "\x7d") (afterGap false rest) := declines_literal hEnd
      obtain ⟨expected, stop, hReject⟩ := require_of_declines (e := .closingBrace) hDeclines
      rw [bind_apply, hReject]
      exact hSome

end TopicSpec.Grammar
