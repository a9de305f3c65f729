import TopicSpec.Proofs.Phrase.Written

/-! # What occurs in a written expression

Every part of a written expression is written itself, but for the message at hand, which stands
nowhere but before the name of its field. What a written expression has at its root is therefore
true of all that occurs in it.
-/

namespace TopicSpec
open Scan
set_option autoImplicit false

/-- Signs do not change the magnitude of an integer, which is below its limit in the text. -/
theorem Literal.Written.natAbs_lt {l : Literal} {n : Int} (h : l.Written)
    (hValue : l.value = .int n) : n.natAbs < integerLimit := by
  induction h generalizing n with
  | constant hWord hRead =>
    have hDenotes := denotes_of_ofConstant hWord hRead
    rw [hValue] at hDenotes
    cases hDenotes
  | boolean hWord hRead =>
    have hDenotes := denotes_of_ofBoolean hWord hRead
    rw [hValue] at hDenotes
    cases hDenotes
  | quoted hWord hRead =>
    have hDenotes := denotes_of_ofQuoted hWord hRead
    rw [hValue] at hDenotes
    cases hDenotes
  | number hWord hRead => exact (denotes_of_ofNumber hWord hRead).2 n hValue
  | @negated l _ _ hNegate ih =>
    obtain ⟨hNegative, -⟩ := value_of_negate? hNegate
    rw [hNegative] at hValue
    cases hInner : l.value with
    | int m =>
      rw [hInner] at hValue
      obtain rfl := LiteralValue.int.inj hValue
      rw [Int.natAbs_neg]
      exact ih hInner
    | _ =>
      rw [hInner] at hValue
      cases hValue

/-- Every number of a text can take a further sign. -/
theorem Literal.Written.exists_negative {l : Literal} (h : l.Written)
    (hNumber : l.value.isNumber = true) : ∃ negative, l.negate? = some negative := by
  rw [← Option.isSome_iff_exists, negate?_isSome_iff]
  constructor
  · unfold toDouble?
    cases hValue : l.value with
    | int _ | double _ => rfl
    | _ =>
      rw [hValue] at hNumber
      cases hNumber
  · intro hLeast
    have hLess := h.natAbs_lt hLeast
    rw [Int.natAbs_neg, Int.natAbs_natCast] at hLess
    exact absurd hLess (lt_irrefl _)

namespace Expr

variable {e found : Expr} {ty : Ty} {scope : List String}

theorem Written.part {part : Option String × Expr} (h : e.Written ty) (hPart : part ∈ e.parts) :
    part.2 = .this ∨ ∃ partType, part.2.Written partType := by
  cases h with
  | literal | var => cases hPart
  | ownField _ =>
    obtain rfl := List.mem_singleton.mp hPart
    exact .inl rfl
  | field _ h _ _ | call _ h _ | not h _ | neg h _ _ =>
    obtain rfl := List.mem_singleton.mp hPart
    exact .inr ⟨_, h⟩
  | index _ _ h h' _ | range h h' _ | binary h h' _ | quantified _ h h' _ =>
    rcases List.mem_pair.mp hPart with rfl | rfl
    · exact .inr ⟨_, h⟩
    · exact .inr ⟨_, h'⟩
  | set _ hMembers _ =>
    obtain ⟨_, hChild, rfl⟩ := List.mem_map.mp hPart
    obtain ⟨m, hMember, rfl⟩ := List.mem_map.mp hChild
    exact .inr ⟨_, hMembers m hMember⟩

theorem eq_of_within_this (h : Within .this scope found) : found = .this := by
  cases h with
  | self => rfl
  | inside hPart => cases hPart

theorem Written.of_within (h : e.Written ty) (hWithin : e.Within scope found) :
    found = .this ∨ ∃ foundType, found.Written foundType := by
  induction hWithin generalizing ty with
  | self => exact .inr ⟨ty, h⟩
  | inside hPart hInner ih =>
    rcases h.part hPart with hThis | ⟨_, hWritten⟩
    · subst hThis
      exact .inl (eq_of_within_this hInner)
    · exact ih hWritten

/-- A minus sign goes into a number, and is refused before any other literal. -/
theorem not_written_negative {l : Literal} : ¬(Expr.unary .neg (.literal l)).Written ty := by
  intro h
  cases h with
  | neg hOperand hKeeps hType =>
    cases hOperand with
    | literal hLiteral =>
      cases hNumber : l.value.isNumber with
      | true =>
        obtain ⟨negative, hNegate⟩ := hLiteral.exists_negative hNumber
        rw [hKeeps l rfl] at hNegate
        cases hNegate
      | false =>
        cases hValue : l.value with
        | int _ | double _ =>
          rw [hValue] at hNumber
          cases hNumber
        | bool _ | text _ =>
          rw [hValue] at hType
          cases hType

theorem not_written_empty : ¬(Expr.set []).Written ty := by
  intro h
  generalize hEmpty : Expr.set [] = found at h
  cases h with
  | set hNonempty => exact hNonempty (List.map_eq_nil_iff.mp (Expr.set.inj hEmpty).symm)
  | _ => cases hEmpty

/-- What holds of all expressions that are put together in a text with the lexemes. -/
structure Sound (tokens : List Token) (e : Expr) : Prop where
  ne_this : e ≠ .this
  vacuous : ∀ scope, ¬e.Within scope .vacuous
  /-- The message at hand stands before the name of a field alone. -/
  this : ∀ scope parent, e.Within scope parent → .this ∈ parent.children →
    ∃ name, parent = .field .this name
  field : ∀ scope base name, e.Within scope (.field base name) →
    (base = .this ∨ base.isReference = true) ∧ IsName name.toList
  index : ∀ scope base position, e.Within scope (.index base position) →
    base.isReference = true ∧ base.isIndex = false
  set : ∀ scope, ¬e.Within scope (.set [])
  negative : ∀ scope l, ¬e.Within scope (.unary .neg (.literal l))
  literal : ∀ scope l, e.Within scope (.literal l) → l.IsAmong tokens ∧
    ∀ n, l.value = .int n → n.natAbs < Literal.integerLimit
  var : ∀ scope name, e.Within scope (.var name) → IsIdentifier name.toList
  call : ∀ scope function argument, e.Within scope (.call function argument) →
    IsName function.toList
  bound : ∀ scope name, e.Binds scope name → IsName name.toList

theorem Sound.mono {tokens more : List Token} (h : e.Sound tokens) (hTokens : tokens ⊆ more) :
    e.Sound more :=
  { h with
    literal := fun scope l hWithin =>
      (h.literal scope l hWithin).imp_left fun hAmong => hAmong.mono hTokens }

/-- The message at hand is not written, so it is no child that is. -/
theorem Written.eq_ownField (h : e.Written ty) (hChild : .this ∈ e.children) :
    ∃ name, e = .field .this name := by
  cases h with
  | literal | var => cases hChild
  | ownField => exact ⟨_, rfl⟩
  | field _ hOperand | call _ hOperand | not hOperand | neg hOperand =>
    obtain rfl := List.mem_singleton.mp hChild
    cases hOperand
  | index _ _ hLeft hRight | range hLeft hRight | binary hLeft hRight
  | quantified _ hLeft hRight =>
    rcases List.mem_pair.mp hChild with rfl | rfl
    · cases hLeft
    · cases hRight
  | set _ hMembers =>
    obtain ⟨m, hMember, hThis⟩ := List.mem_map.mp hChild
    have hWritten := hMembers m hMember
    rw [hThis] at hWritten
    cases hWritten

theorem Written.sound {tokens : List Token} (h : e.Written ty)
    (hLiterals : e.LiteralsAmong tokens) : e.Sound tokens := by
  have hParts : ∀ scope found, e.Within scope found → found ≠ .this →
      ∃ foundType, found.Written foundType :=
    fun _ _ hWithin hOther => (h.of_within hWithin).resolve_left hOther
  constructor
  case ne_this =>
    rintro rfl
    cases h
  case vacuous =>
    intro scope hWithin
    obtain ⟨_, hFound⟩ := hParts _ _ hWithin nofun
    cases hFound
  case this =>
    intro scope parent hWithin hChild
    obtain ⟨_, hFound⟩ := hParts _ _ hWithin (by rintro rfl; cases hChild)
    exact hFound.eq_ownField hChild
  case field =>
    intro scope base name hWithin
    obtain ⟨_, hFound⟩ := hParts _ _ hWithin nofun
    cases hFound with
    | ownField hName => exact ⟨.inl rfl, hName⟩
    | field hBase _ hName => exact ⟨.inr hBase, hName⟩
  case index =>
    intro scope base position hWithin
    obtain ⟨_, hFound⟩ := hParts _ _ hWithin nofun
    cases hFound with
    | index hBase hOnce => exact ⟨hBase, hOnce⟩
  case set =>
    intro scope hWithin
    obtain ⟨_, hFound⟩ := hParts _ _ hWithin nofun
    exact not_written_empty hFound
  case negative =>
    intro scope l hWithin
    obtain ⟨_, hFound⟩ := hParts _ _ hWithin nofun
    exact not_written_negative hFound
  case literal =>
    intro scope l hWithin
    obtain ⟨_, hFound⟩ := hParts _ _ hWithin nofun
    cases hFound with
    | literal hLiteral => exact ⟨hLiterals scope l hWithin, fun n => hLiteral.natAbs_lt⟩
  case var =>
    intro scope name hWithin
    obtain ⟨_, hFound⟩ := hParts _ _ hWithin nofun
    cases hFound with
    | var hName => exact hName
  case call =>
    intro scope function argument hWithin
    obtain ⟨_, hFound⟩ := hParts _ _ hWithin nofun
    cases hFound with
    | call hName => exact hName
  case bound =>
    rintro scope name ⟨quantifier, domain, body, hWithin⟩
    obtain ⟨_, hFound⟩ := hParts _ _ hWithin nofun
    cases hFound with
    | quantified hName => exact hName

end Expr
end TopicSpec
