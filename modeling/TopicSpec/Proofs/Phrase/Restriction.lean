import TopicSpec.Proofs.Phrase.Unchecked
import TopicSpec.Proofs.Typing.Restriction

/-! # Schemas only restrict

A text is read with a resolver of field types or without one. The resolver can turn a text that is
accepted into one that is badly typed, and has no other effect.
-/

namespace TopicSpec
open Typing
set_option autoImplicit false

/-- How a reading with schemas differs from the one without. -/
structure Restricts {α : Type} (strict lax : Except SpecError α) : Prop where
  accepted : ∀ a, strict = .ok a → lax = .ok a
  /-- An error of form or binding does not depend on the schemas. -/
  refused : ∀ e, lax = .error e → (∀ t, e ≠ .typing t) → strict = .error e
  mistyped : ∀ t, lax = .error (.typing t) → ∃ t', strict = .error (.typing t')

section
variable {α β : Type} {strict lax : Except SpecError α}

theorem restricts_bind {r : Except SpecError α} {f g : α → Except SpecError β}
    (h : ∀ a, Restricts (f a) (g a)) : Restricts (r >>= f) (r >>= g) := by
  cases r with
  | ok a => exact h a
  | error e => exact ⟨fun _ hOk => hOk, fun _ hError _ => hError, fun t hError => ⟨t, hError⟩⟩

theorem restricts_of_typing {a : α} {r r' : Except SpecError PUnit}
    (hAccepted : r = .ok () → r' = .ok ()) (h : Concludes (fun _ => True) (∃ t, · = .typing t) r)
    (h' : Concludes (fun _ => True) (∃ t, · = .typing t) r') :
    Restricts (r >>= fun _ => pure a) (r' >>= fun _ => pure a) := by
  cases r with
  | ok =>
    rw [hAccepted rfl]
    exact ⟨fun _ hOk => hOk, fun _ hError _ => hError, fun t hError => ⟨t, hError⟩⟩
  | error e =>
    obtain ⟨t, rfl⟩ := h
    refine ⟨?_, ?_, fun _ _ => ⟨t, rfl⟩⟩
    · intro _ hOk
      cases hOk
    · intro e' hLax hOther
      cases r' with
      | ok => cases hLax
      | error e'' =>
        obtain ⟨t', rfl⟩ := h'
        cases hLax
        exact absurd rfl (hOther t')

end

namespace Phrase

variable {topic : Option String} {aliases : List (String × String)} {resolver : Resolver}
  {property : Property} {assumption : Assumption} {condition : Expr}

theorem checkCondition_is_typing (env : Environment) (condition : Expr) :
    Concludes (fun _ => True) (∃ t, · = .typing t)
      (liftM (env.checkCondition condition) : Except SpecError Unit) := by
  refine concludes_mapError (E := fun _ => True) ?_ fun t _ => ⟨t, rfl⟩
  cases env.checkCondition condition <;> trivial

theorem checkCondition_without
    (h : (liftM ((Environment.mk topic aliases (some resolver)).checkCondition condition) :
      Except SpecError Unit) = .ok ()) :
    (liftM ((Environment.mk topic aliases none).checkCondition condition) :
      Except SpecError Unit) = .ok () :=
  congrArg (Except.mapError SpecError.typing)
    (Environment.checkCondition_unresolved (ok_of_mapError h))

theorem checkProperty_restricts (resolver : Resolver) (property : Property) :
    Restricts (do checkProperty (some resolver) property; return property)
      (do checkProperty none property; return property) := by
  simp only [checkProperty, bind_assoc]
  -- The bindings are checked first, without a look at the schemas.
  apply restricts_bind
  intro _
  apply restricts_of_typing
  · intro h
    refine forM_eq_ok_iff.mpr fun event hEvent => ?_
    exact checkCondition_without (forM_eq_ok_iff.mp h event hEvent)
  · exact concludes_forM fun event _ => checkCondition_is_typing _ _
  · exact concludes_forM fun event _ => checkCondition_is_typing _ _

theorem checkAssumption_restricts (resolver : Resolver) (assumption : Assumption) :
    Restricts (do checkAssumption (some resolver) assumption; return assumption)
      (do checkAssumption none assumption; return assumption) := by
  simp only [checkAssumption, bind_assoc]
  apply restricts_bind
  intro _
  apply restricts_of_typing
  · exact checkCondition_without
  · exact checkCondition_is_typing _ _
  · exact checkCondition_is_typing _ _

/-! ## Unknown topics -/

theorem mem_events_of_aliasTopic? {name found : String}
    (h : (Environment.mk topic property.aliases (some resolver)).aliasTopic? name = some found) :
    ∃ event ∈ property.events, event.topic = found := by
  obtain ⟨entry, hFind, rfl⟩ := Option.map_eq_some_iff.mp h
  obtain ⟨event, hEvent, hEntry⟩ := List.mem_filterMap.mp (List.mem_of_find?_eq_some hFind)
  obtain ⟨_, _, rfl⟩ := Option.map_eq_some_iff.mp hEntry
  exact ⟨event, hEvent, rfl⟩

theorem checkProperty_of_unknown
    (h : ∀ event ∈ property.events, resolver.knows event.topic = false) :
    checkProperty (some resolver) property = checkProperty none property := by
  have hUnaware : ∀ event ∈ property.events,
      (Environment.mk (some event.topic) property.aliases (some resolver)).Unaware := by
    intro event hEvent _ hResolver found hFound
    obtain rfl := Option.some.inj hResolver
    rcases hFound with hOwn | ⟨name, hAlias⟩
    · obtain rfl := Option.some.inj hOwn
      exact h event hEvent
    · obtain ⟨named, hNamed, rfl⟩ := mem_events_of_aliasTopic? hAlias
      exact h named hNamed
  rw [checkProperty, checkProperty]
  congr 1
  funext _
  apply forM_congr
  intro event hEvent
  rw [Environment.checkCondition_eq_unresolved (hUnaware event hEvent)]
  rfl

theorem checkAssumption_of_unknown (h : resolver.knows assumption.topic = false) :
    checkAssumption (some resolver) assumption = checkAssumption none assumption := by
  have hUnaware : (Environment.mk (some assumption.topic) [] (some resolver)).Unaware := by
    intro _ hResolver found hFound
    obtain rfl := Option.some.inj hResolver
    rcases hFound with hOwn | ⟨name, hAlias⟩
    · obtain rfl := Option.some.inj hOwn
      exact h
    · cases hAlias
  rw [checkAssumption, checkAssumption, Environment.checkCondition_eq_unresolved hUnaware]
  rfl

theorem unaware_withResolver (resolver : Option Resolver) :
    (Environment.withResolver resolver).Unaware := by
  rintro _ _ found (hOwn | ⟨name, hAlias⟩)
  · cases hOwn
  · cases hAlias

end Phrase

/-- A resolver restricts what is accepted, and changes neither what is read nor an error other than
of typing. Where it knows no topic of the text it changes nothing, and so for any condition by
itself. -/
theorem resolver_only_restricts (resolver : Resolver) (text : String) :
    (Restricts (Property.ofText (some resolver) text) (Property.ofText none text) ∧
      ((∀ property, Property.stated text = .ok property →
          ∀ event ∈ property.events, resolver.knows event.topic = false) →
        Property.ofText (some resolver) text = Property.ofText none text)) ∧
    (Restricts (Assumption.ofText (some resolver) text) (Assumption.ofText none text) ∧
      ((∀ assumption, Assumption.stated text = .ok assumption →
          resolver.knows assumption.topic = false) →
        Assumption.ofText (some resolver) text = Assumption.ofText none text)) ∧
    Expr.ofText (some resolver) text = Expr.ofText none text := by
  refine ⟨⟨?_, ?_⟩, ⟨?_, ?_⟩, ?_⟩
  · rw [Property.ofText_eq, Property.ofText_eq]
    exact restricts_bind (Phrase.checkProperty_restricts resolver)
  · intro hUnknown
    rw [Property.ofText_eq, Property.ofText_eq]
    cases hStated : Property.stated text with
    | error e => rfl
    | ok property =>
      have hCheck := Phrase.checkProperty_of_unknown (hUnknown property hStated)
      simp only [ok_bind, hCheck]
  · rw [Assumption.ofText_eq, Assumption.ofText_eq]
    exact restricts_bind (Phrase.checkAssumption_restricts resolver)
  · intro hUnknown
    rw [Assumption.ofText_eq, Assumption.ofText_eq]
    cases hStated : Assumption.stated text with
    | error e => rfl
    | ok assumption =>
      have hCheck := Phrase.checkAssumption_of_unknown (hUnknown assumption hStated)
      simp only [ok_bind, hCheck]
  · rw [Expr.ofText_eq, Expr.ofText_eq]
    have hCheck : ∀ condition, (Environment.withResolver (some resolver)).checkCondition condition =
        (Environment.withResolver none).checkCondition condition :=
      fun _ => Environment.checkCondition_eq_unresolved (Phrase.unaware_withResolver _)
    simp only [hCheck]

/-- Messages on one topic alone, without any field. -/
def Resolver.onlyEmpty (topic : String) : Resolver := ⟨(· == topic), fun _ _ => none⟩

theorem onlyEmpty_leaves_other_topics :
    (∀ property, Property.stated "globally: no door { open and x < 1 }" = .ok property →
      ∀ event ∈ property.events, (Resolver.onlyEmpty "lamp").knows event.topic = false) ∧
    Property.ofText (some (Resolver.onlyEmpty "lamp")) "globally: no door { open and x < 1 }" =
      Property.ofText none "globally: no door { open and x < 1 }" := by
  have hTopics : (Property.stated "globally: no door { open and x < 1 }").toOption.map
      (·.events.map Event.topic) = some ["door"] := by decide +kernel
  have hUnknown : ∀ property,
      Property.stated "globally: no door { open and x < 1 }" = .ok property →
      ∀ event ∈ property.events, (Resolver.onlyEmpty "lamp").knows event.topic = false := by
    intro property hStated event hEvent
    rw [hStated] at hTopics
    have hTopic : event.topic ∈ ["door"] :=
      Option.some.inj hTopics ▸ List.mem_map_of_mem hEvent
    rw [List.mem_singleton.mp hTopic]
    decide
  exact ⟨hUnknown, (resolver_only_restricts _ _).1.2 hUnknown⟩

end TopicSpec
