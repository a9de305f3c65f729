import TopicSpec.Proofs.Binding.Discipline
import TopicSpec.Proofs.Typing.Referent

/-! # What a name stands for

The check of a property sees aliases event by event, while the typing of its guards looks them up in
one list of all events, of which the first counts. In a property that has been accepted both find
the same event, and typing meets no name that stands for nothing. -/

namespace TopicSpec
set_option autoImplicit false

namespace Property

variable {property : Property} {slot other : Slot} {event : Event} {name : String}

/-- The first slot whose event has the alias. -/
def firstNamed? (property : Property) (name : String) : Option Slot :=
  [.activator, .trigger, .behaviour, .terminator].find? fun slot => property.alias? slot = some name

theorem ne_of_sees (h : property.Sees slot other) : other ≠ slot := by
  cases h <;> decide

theorem events_eq_filterMap : property.events =
    [Slot.activator, .trigger, .behaviour, .terminator].filterMap property.event? := by
  obtain ⟨scope, pattern⟩ := property
  cases scope <;> cases pattern <;> rfl

theorem mem_events_of_event? (h : property.event? slot = some event) : event ∈ property.events := by
  rw [events_eq_filterMap]
  exact List.mem_filterMap.mpr ⟨slot, by cases slot <;> simp, h⟩

/-- The list of aliases has the topic of the first event of the name. -/
theorem find?_aliases_eq (property : Property) (name : String) :
    property.aliases.find? (·.1 == name) =
      ((property.firstNamed? name).bind property.event?).map fun event => (name, event.topic) := by
  rw [aliases, events_eq_filterMap, firstNamed?]
  generalize [Slot.activator, .trigger, .behaviour, .terminator] = slots
  induction slots with
  | nil => rfl
  | cons slot slots ih =>
    cases hEvent : property.event? slot with
    | none => simpa [hEvent, alias?] using ih
    | some event =>
      cases hAlias : event.alias? with
      | none => simpa [hEvent, hAlias, alias?] using ih
      | some found =>
        by_cases hName : found = name
        · simp [hEvent, hAlias, alias?, hName]
        · simpa [hEvent, hAlias, alias?, hName] using ih

/-- An alias that is visible in a slot is not that of an earlier event but the visible one. -/
theorem firstNamed?_of_sees (h : property.Disciplined) (hEvent : property.event? slot = some event)
    (hFree : event.guard.Free name) (hSees : property.Sees slot other)
    (hAlias : property.alias? other = some name) : property.firstNamed? name = some other := by
  have hOwn : property.alias? slot ≠ some name := by
    rw [alias?_eq hEvent]
    exact ((h slot event hEvent).refers name hFree).2
  cases hSees with
  | triggerActivator | behaviourActivator | terminatorActivator => simp [firstNamed?, hAlias]
  | behaviourTrigger =>
    have hActivator : property.alias? .activator ≠ some name := by
      intro hActivator
      obtain ⟨trigger, hTrigger, hName⟩ := Option.bind_eq_some_iff.mp hAlias
      exact (h .trigger trigger hTrigger).names name hName
        ⟨.activator, .triggerActivator, hActivator⟩
    simp [firstNamed?, hAlias, hActivator]
  | triggerBehaviour hPattern =>
    have hActivator : property.alias? .activator ≠ some name := by
      intro hActivator
      obtain ⟨behaviour, hBehaviour, hName⟩ := Option.bind_eq_some_iff.mp hAlias
      exact (h .behaviour behaviour hBehaviour).names name hName
        ⟨.activator, .behaviourActivator, hActivator⟩
    simp [firstNamed?, hAlias, hActivator, hOwn]

/-- In the guard of the event in the slot, the name means the given event in the other slot. -/
structure Means (property : Property) (slot : Slot) (name : String) (other : Slot)
    (meant : Event) : Prop where
  ne : other ≠ slot
  sees : property.Sees slot other
  event : property.event? other = some meant
  named : meant.alias? = some name
  /-- No other visible event has the name. -/
  unique : ∀ seen, property.Sees slot seen → property.alias? seen = some name → seen = other
  /-- No event before it has the name, visible or not. -/
  first : property.firstNamed? name = some other

theorem means_of_free (h : property.Disciplined) (hEvent : property.event? slot = some event)
    (hFree : event.guard.Free name) : ∃ other meant, property.Means slot name other meant := by
  obtain ⟨⟨other, hSees, hAlias⟩, -⟩ := (h slot event hEvent).refers name hFree
  obtain ⟨meant, hMeant, hName⟩ := Option.bind_eq_some_iff.mp hAlias
  have hFirst := firstNamed?_of_sees h hEvent hFree hSees hAlias
  refine ⟨other, meant, ne_of_sees hSees, hSees, hMeant, hName, fun seen hSeen hSeenAlias => ?_,
    hFirst⟩
  have hSeenFirst := firstNamed?_of_sees h hEvent hFree hSeen hSeenAlias
  exact Option.some.inj (hSeenFirst.symm.trans hFirst)

theorem Means.aliasTopic?_eq {other : Slot} {meant : Event} {topic : Option String}
    {resolver : Option Resolver} (h : property.Means slot name other meant) :
    (Typing.Environment.mk topic property.aliases resolver).aliasTopic? name =
      some meant.topic := by
  simp [Typing.Environment.aliasTopic?, find?_aliases_eq, h.first, h.event]

end Property

open Typing in
/-- In an accepted property, a name that is free in a guard has the topic of the one event that it
means under the rules of binding. Wherever a name occurs in a guard, typing takes it for a variable
of a quantifier around it or, where there is none, for that event; nothing else is ever asked for,
since strict inference gives the same type or error. -/
theorem typing_agrees_with_binding {property : Property} (h : property.checkBinding = .ok ())
    (resolver : Option Resolver) {slot : Slot} {event : Event}
    (hEvent : property.event? slot = some event) :
    let env : Environment := ⟨some event.topic, property.aliases, resolver⟩
    (∀ name, event.guard.Free name → ∃ other meant,
      property.Means slot name other meant ∧ env.aliasTopic? name = some meant.topic) ∧
    (∀ scope name (vars : List (String × Ty)), event.guard.Within scope (.var name) →
      (∀ n, n ∈ vars.map Prod.fst ↔ n ∈ scope) →
      (name ∈ scope ∧ ∃ ty, env.referent? vars name = some (.bound ty)) ∨
      (name ∉ scope ∧ ∃ other meant, property.Means slot name other meant ∧
        env.referent? vars name = some (.event meant.topic))) ∧
    env.inferStrictlyUnder [] event.guard = (env.infer event.guard).mapError .typing := by
  intro env
  have hDisciplined := Property.checkBinding_eq_ok_iff_disciplined.mp h
  refine ⟨fun name hFree => ?_, fun scope name vars hWithin hScope => ?_, ?_⟩
  · obtain ⟨other, meant, hMeans⟩ := Property.means_of_free hDisciplined hEvent hFree
    exact ⟨other, meant, hMeans, hMeans.aliasTopic?_eq⟩
  · by_cases hBound : name ∈ scope
    · exact .inl ⟨hBound, Environment.referent?_of_mem ((hScope name).mpr hBound)⟩
    · have hFree : event.guard.Free name := ⟨scope, hWithin, hBound⟩
      obtain ⟨other, meant, hMeans⟩ := Property.means_of_free hDisciplined hEvent hFree
      refine .inr ⟨hBound, other, meant, hMeans, ?_⟩
      rw [Environment.referent?_of_not_mem (mt (hScope name).mp hBound), hMeans.aliasTopic?_eq]
      rfl
  · refine Environment.inferStrictlyUnder_eq fun name hFree => ?_
    obtain ⟨other, meant, hMeans⟩ := Property.means_of_free hDisciplined hEvent hFree
    rw [Environment.referent?_of_not_mem (by simp), hMeans.aliasTopic?_eq]
    rfl

/-- A response whose terminator has the alias of its trigger. -/
def reusedAlias : Property where
  scope := .afterUntil ⟨"a", some "start", .vacuous⟩ ⟨"c", some "it", .vacuous⟩
  pattern := .response ⟨"b", some "it", .vacuous⟩
    ⟨"d", none, .binary .eq (.field .this "x") (.field (.var "it") "y")⟩ (.infinity false)

theorem reusedAlias_means_trigger : ∃ other meant,
    reusedAlias.Means .behaviour "it" other meant ∧
      (Typing.Environment.mk (some "d") reusedAlias.aliases none).aliasTopic? "it" =
        some meant.topic := by
  have hFree : reusedAlias.pattern.behaviour.guard.Free "it" :=
    Expr.mem_freeOccurrences_iff.mp (by decide)
  have hAccepted : reusedAlias.checkBinding = .ok () := rfl
  have hBehaviour : reusedAlias.event? .behaviour = some reusedAlias.pattern.behaviour := rfl
  have hAgrees := typing_agrees_with_binding hAccepted none hBehaviour
  exact hAgrees.1 "it" hFree

end TopicSpec
