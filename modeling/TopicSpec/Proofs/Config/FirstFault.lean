import TopicSpec.Config.Basic
import TopicSpec.Proofs.Conclusion

/-! # First faults

The errors of a configuration in the order in which their parts are checked. A check tells the first
of its faults; checks in sequence do so together if the faults of each come before those of the
next. -/

namespace TopicSpec
set_option autoImplicit false

/-! ## Faults in their order -/

namespace ConfigError

/-- The part of a configuration that an error is about, as its message names it. -/
def key : ConfigError → String
  | document => ""
  | fieldType topic path _ => s!"topics.{Text.quote topic}.{Text.quote path}"
  | level none _ => "logging.level"
  | level (some name) _ => "logging.modules." ++ Text.quote name
  | emptyName kind index | duplicateName kind index _ => s!"{keyOf kind}[{index}]"

theorem message_eq (e : ConfigError) : ∃ complaint, e.message = e.key ++ complaint := by
  cases e with
  | document => exact ⟨_, String.empty_append.symm⟩
  | fieldType topic path error =>
    refine ⟨": " ++ error.message, ?_⟩
    rw [← String.append_assoc]
    rfl
  | level target found =>
    let expected := ", ".intercalate levels
    refine ⟨": unknown log level " ++ Text.quote found ++ ", expected one of " ++ expected, ?_⟩
    simp only [← String.append_assoc]
    cases target <;> rfl
  | emptyName kind index =>
    have hBracket : "]: name must not be empty" = "]" ++ ": name must not be empty" := by decide
    refine ⟨": name must not be empty", ?_⟩
    show keyOf kind ++ "[" ++ toString index ++ "]: name must not be empty" = _
    rw [hBracket, ← String.append_assoc]
    rfl
  | duplicateName kind index name =>
    have hBracket : "]: duplicate " = "]" ++ ": duplicate " := by decide
    refine ⟨": duplicate " ++ keyOf kind ++ " name " ++ Text.quote name, ?_⟩
    show keyOf kind ++ "[" ++ toString index ++ "]: duplicate " ++ keyOf kind ++ " name " ++
      Text.quote name = _
    rw [hBracket]
    simp only [← String.append_assoc]
    rfl

/-- The place of an error in the order of the checks. -/
def stage : ConfigError → Nat
  | document => 0
  | fieldType _ _ _ => 1
  | level none _ => 2
  | level (some _) _ => 3
  | emptyName .node _ | duplicateName .node _ _ => 4
  | emptyName .configuration _ | duplicateName .configuration _ _ => 5

/-- The index of the entity that an error is about. -/
def index? : ConfigError → Option Nat
  | emptyName _ index | duplicateName _ index _ => some index
  | _ => none

/-- Types by topic and path come first, then the general level, the levels of modules by name, and
the entities of each kind by index. -/
inductive Precedes : ConfigError → ConfigError → Prop where
  | stage {e e' : ConfigError} : e.stage < e'.stage → Precedes e e'
  | topic {t t' p p' : String} {u u' : UnknownType} : t < t' →
    Precedes (.fieldType t p u) (.fieldType t' p' u')
  | path {t p p' : String} {u u' : UnknownType} : p < p' →
    Precedes (.fieldType t p u) (.fieldType t p' u')
  | module {m m' l l' : String} : m < m' → Precedes (.level (some m) l) (.level (some m') l')
  | index {e e' : ConfigError} {i i' : Nat} : e.stage = e'.stage → e.index? = some i →
    e'.index? = some i' → i < i' → Precedes e e'
  | empty (kind : EntityKind) (i : Nat) (name : String) :
    Precedes (.emptyName kind i) (.duplicateName kind i name)

theorem Precedes.stage_le {e e' : ConfigError} (h : e.Precedes e') : e.stage ≤ e'.stage := by
  cases h with
  | stage hStage => exact Nat.le_of_lt hStage
  | topic | path | module => exact Nat.le_refl _
  | index hStage => exact Nat.le_of_eq hStage
  | empty kind => cases kind <;> exact Nat.le_refl _

theorem Precedes.asymm {e e' : ConfigError} (h : e.Precedes e') : ¬e'.Precedes e := by
  intro h'
  have hStage : e.stage = e'.stage := Nat.le_antisymm h.stage_le h'.stage_le
  cases h with
  | stage hLess => exact absurd hStage (Nat.ne_of_lt hLess)
  | topic hTopic =>
    cases h' with
    | stage hLess => exact absurd hLess (Nat.lt_irrefl _)
    | topic hTopic' => exact String.lt_asymm hTopic hTopic'
    | path => exact String.lt_irrefl _ hTopic
    | index _ hIndex => cases hIndex
  | path hPath =>
    cases h' with
    | stage hLess => exact absurd hLess (Nat.lt_irrefl _)
    | topic hTopic => exact String.lt_irrefl _ hTopic
    | path hPath' => exact String.lt_asymm hPath hPath'
    | index _ hIndex => cases hIndex
  | module hModule =>
    cases h' with
    | stage hLess => exact absurd hLess (Nat.lt_irrefl _)
    | module hModule' => exact String.lt_asymm hModule hModule'
    | index _ hIndex => cases hIndex
  | index _ hIndex hIndex' hLess =>
    cases h' with
    | stage hLess' => exact absurd hStage (Nat.ne_of_gt hLess')
    | topic | path | module => cases hIndex
    | index _ hOther hOther' hLess' =>
      obtain rfl := Option.some.inj (hOther.symm.trans hIndex')
      obtain rfl := Option.some.inj (hOther'.symm.trans hIndex)
      exact Nat.lt_asymm hLess hLess'
    | empty =>
      obtain rfl := Option.some.inj hIndex
      obtain rfl := Option.some.inj hIndex'
      exact Nat.lt_irrefl _ hLess
  | empty kind =>
    cases h' with
    | stage hLess => exact absurd hStage (Nat.ne_of_gt hLess)
    | index _ hIndex hIndex' hLess =>
      obtain rfl := Option.some.inj hIndex
      obtain rfl := Option.some.inj hIndex'
      exact Nat.lt_irrefl _ hLess

end ConfigError

/-! ## Checks that tell the first fault -/

/-- A check with these faults finds none of them, or fails with the first one. -/
def TellsFirst {α : Type} (faults : ConfigError → Prop) : Except ConfigError α → Prop
  | .ok _ => ∀ e, ¬faults e
  | .error e => faults e ∧ ∀ other, faults other → other = e ∨ e.Precedes other

section
variable {α β : Type} {faults faults' : ConfigError → Prop} {r : Except ConfigError α}

theorem TellsFirst.congr (h : TellsFirst faults r) (hSame : ∀ e, faults e ↔ faults' e) :
    TellsFirst faults' r := by
  obtain rfl : faults = faults' := funext fun e => propext (hSame e)
  exact h

theorem tellsFirst_map {f : α → β} (h : TellsFirst faults r) :
    TellsFirst faults (r >>= fun a => pure (f a)) := by
  cases r with
  | ok a => exact h
  | error e => exact h

/-- Checks in sequence, where the faults of the second one come later. -/
theorem tellsFirst_bind {f : α → Except ConfigError β} (h : TellsFirst faults r)
    (hNext : ∀ a, TellsFirst faults' (f a))
    (hOrder : ∀ e e', faults e → faults' e' → e.Precedes e') :
    TellsFirst (fun e => faults e ∨ faults' e) (r >>= f) := by
  cases r with
  | ok a =>
    refine (hNext a).congr fun e => ?_
    rw [or_iff_right (h e)]
  | error e =>
    obtain ⟨hFault, hFirst⟩ := h
    refine ⟨.inl hFault, fun other hOther => ?_⟩
    rcases hOther with hOther | hOther
    · exact hFirst other hOther
    · exact .inr (hOrder e other hFault hOther)

/-- Checks in sequence, where the faults of the first one are all of the same stage, and those of
the second one of later stages. -/
theorem tellsFirst_stages {f : α → Except ConfigError β} {n : Nat} (h : TellsFirst faults r)
    (hNext : ∀ a, TellsFirst faults' (f a)) (hStage : ∀ e, faults e → e.stage = n)
    (hLater : ∀ e, faults' e → n < e.stage) :
    TellsFirst (fun e => faults e ∨ faults' e) (r >>= f) := by
  refine tellsFirst_bind h hNext fun e e' hFault hFault' => .stage ?_
  rw [hStage e hFault]
  exact hLater e' hFault'

/-- A check of one item after the other, where the faults of later items come later. -/
theorem tellsFirst_foldlM {σ item : Type} {items : List item}
    {faultsOf : item → ConfigError → Prop} {step : σ → item → Except ConfigError σ}
    (hStep : ∀ state a, TellsFirst (faultsOf a) (step state a))
    (hOrder : items.Pairwise fun a b => ∀ e e', faultsOf a e → faultsOf b e' → e.Precedes e')
    (state : σ) : TellsFirst (fun e => ∃ a ∈ items, faultsOf a e) (items.foldlM step state) := by
  induction items generalizing state with
  | nil => exact fun e hFault => by simp at hFault
  | cons a items ih =>
    obtain ⟨hFirst, hRest⟩ := List.pairwise_cons.mp hOrder
    rw [List.foldlM_cons]
    refine (tellsFirst_bind (hStep state a) (fun next => ih hRest next) ?_).congr fun e => ?_
    · rintro e e' hFault ⟨b, hMem, hFault'⟩
      exact hFirst b hMem e e' hFault hFault'
    · simp

theorem tellsFirst_forM {item : Type} {items : List item} {faultsOf : item → ConfigError → Prop}
    {check : item → Except ConfigError PUnit} (hCheck : ∀ a, TellsFirst (faultsOf a) (check a))
    (hOrder : items.Pairwise fun a b => ∀ e e', faultsOf a e → faultsOf b e' → e.Precedes e') :
    TellsFirst (fun e => ∃ a ∈ items, faultsOf a e) (items.forM check) := by
  have hFold : items.forM check = items.foldlM (fun _ a => check a) () := by
    clear hOrder
    induction items with
    | nil => rfl
    | cons a items ih =>
      rw [List.forM, List.foldlM_cons, ih]
  rw [hFold]
  exact tellsFirst_foldlM (fun _ => hCheck) hOrder ()

end

end TopicSpec
