import TopicSpec.Error

/-! # Conclusions

What is known of a computation that may fail: a property of its value, and one of its error. -/

namespace TopicSpec
set_option autoImplicit false

variable {ε δ α β : Type}

@[simp] theorem ok_bind (a : α) (f : α → Except ε β) : (Except.ok a >>= f) = f a := rfl

@[simp] theorem error_bind (e : ε) (f : α → Except ε β) :
    ((Except.error e : Except ε α) >>= f) = .error e := rfl

theorem ok_of_bind {r : Except ε α} {f : α → Except ε β} {b : β} (h : (r >>= f) = .ok b) :
    ∃ a, r = .ok a ∧ f a = .ok b := by
  cases r with
  | ok a => exact ⟨a, rfl, h⟩
  | error e => cases h

theorem ok_of_map {f : α → β} {r : Except ε α} {b : β} (h : r.map f = .ok b) :
    ∃ a, r = .ok a ∧ f a = b := by
  cases r with
  | ok a => exact ⟨a, rfl, Except.ok.inj h⟩
  | error e => cases h

/-- What is found in the value is found in an accepted one. -/
theorem ok_of_toOption {f : α → β} {r : Except ε α} {b : β} (h : r.toOption.map f = some b) :
    ∃ a, r = .ok a ∧ f a = b := by
  cases r with
  | ok a => exact ⟨a, rfl, Option.some.inj h⟩
  | error e => cases h

theorem mapError_ok (g : ε → δ) (a : α) : (Except.ok a : Except ε α).mapError g = .ok a := rfl

theorem ok_of_mapError {g : ε → δ} {r : Except ε α} {a : α} (h : r.mapError g = .ok a) :
    r = .ok a := by
  cases r with
  | ok b => exact congrArg _ (Except.ok.inj h)
  | error e => cases h

theorem mapError_bind (g : ε → δ) (r : Except ε α) (f : α → Except ε β) :
    (r >>= f).mapError g = r.mapError g >>= fun a => (f a).mapError g := by
  cases r <;> rfl

theorem seq_eq_ok_iff {first : Except ε Unit} {second : Except ε α} {a : α} :
    (first >>= fun _ => second) = .ok a ↔ first = .ok () ∧ second = .ok a := by
  cases first <;> simp

theorem forM_eq_ok_iff {f : α → Except ε PUnit} {items : List α} :
    items.forM f = .ok () ↔ ∀ a ∈ items, f a = .ok () := by
  induction items with
  | nil => exact ⟨fun _ a ha => (List.not_mem_nil ha).elim, fun _ => rfl⟩
  | cons a items ih => rw [List.forM, seq_eq_ok_iff, ih, List.forall_mem_cons]

theorem forM_congr {f g : α → Except ε PUnit} {items : List α} (h : ∀ a ∈ items, f a = g a) :
    items.forM f = items.forM g := by
  induction items with
  | nil => rfl
  | cons a items ih =>
    rw [List.forM, List.forM, h a List.mem_cons_self,
      ih fun a ha => h a (List.mem_cons_of_mem _ ha)]

/-- The computation ends with a value of the one property or with an error of the other. -/
def Concludes (value : α → Prop) (error : ε → Prop) : Except ε α → Prop
  | .ok a => value a
  | .error e => error e

section
variable {P : α → Prop} {Q : β → Prop} {E : ε → Prop} {r : Except ε α}

theorem concludes_iff :
    Concludes P E r ↔ (∀ a, r = .ok a → P a) ∧ ∀ e, r = .error e → E e := by
  cases r <;> simp [Concludes]

theorem concludes_pure {a : α} (h : P a) : Concludes P E (pure a : Except ε α) := h

theorem concludes_bind {f : α → Except ε β} (h : Concludes P E r)
    (hNext : ∀ a, P a → Concludes Q E (f a)) : Concludes Q E (r >>= f) := by
  cases r with
  | ok a => exact hNext a h
  | error e => exact h

theorem Concludes.imp {P' : α → Prop} (h : Concludes P E r) (hValue : ∀ a, P a → P' a) :
    Concludes P' E r := by
  cases r with
  | ok a => exact hValue a h
  | error e => exact h

theorem concludes_mapError {f : ε → δ} {D : δ → Prop} (h : Concludes P E r)
    (hError : ∀ e, E e → D (f e)) : Concludes P D (r.mapError f) := by
  cases r with
  | ok a => exact h
  | error e => exact hError e h

theorem concludes_mapM {f : α → Except ε β} {items : List α}
    (h : ∀ a ∈ items, Concludes Q E (f a)) :
    Concludes (fun bs => ∀ b ∈ bs, Q b) E (items.mapM f) := by
  induction items with
  | nil => exact concludes_pure (by simp)
  | cons a items ih =>
    rw [List.mapM_cons]
    refine concludes_bind (h a List.mem_cons_self) fun b hb => ?_
    refine concludes_bind (ih fun a ha => h a (List.mem_cons_of_mem _ ha)) fun bs hbs => ?_
    refine concludes_pure fun c hc => ?_
    rcases List.mem_cons.mp hc with rfl | hc
    · exact hb
    · exact hbs c hc

theorem concludes_forM {f : α → Except ε PUnit} {items : List α}
    (h : ∀ a ∈ items, Concludes (fun _ => True) E (f a)) :
    Concludes (fun _ => True) E (items.forM f) := by
  induction items with
  | nil => exact concludes_pure trivial
  | cons a items ih =>
    exact concludes_bind (h a List.mem_cons_self) fun _ _ =>
      ih fun a ha => h a (List.mem_cons_of_mem _ ha)

end

/-- An error other than a wrong number of operands, which no text can cause. -/
def TypeError.Substantive : TypeError → Prop
  | operandCount _ _ => False
  | _ => True

/-- An error in what a tree says and not in its shape. -/
def SpecError.Substantive : SpecError → Prop
  | binding _ => True
  | typing e => e.Substantive
  | malformed _ | shape _ => False

end TopicSpec
