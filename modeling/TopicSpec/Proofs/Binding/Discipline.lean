import TopicSpec.Proofs.Expr.Occurrence

/-! # The discipline of bindings

Which event of a property sees which is a relation between the slots that the events stand in. The
check of a property, which collects the visible aliases on its way, accepts exactly the properties
in which every guard keeps to what its slot sees. -/

namespace TopicSpec
set_option autoImplicit false

/-- The part that an event plays in a property. -/
inductive Slot where
  | activator
  | trigger
  | behaviour
  | terminator
  deriving DecidableEq

theorem Slot.forall_iff {P : Slot → Prop} :
    (∀ slot, P slot) ↔ P .activator ∧ P .trigger ∧ P .behaviour ∧ P .terminator := by
  refine ⟨fun h => ⟨h _, h _, h _, h _⟩, ?_⟩
  rintro ⟨hActivator, hTrigger, hBehaviour, hTerminator⟩ slot
  cases slot with
  | activator => exact hActivator
  | trigger => exact hTrigger
  | behaviour => exact hBehaviour
  | terminator => exact hTerminator

namespace Property

/-- The event in a slot. -/
def event? (property : Property) : Slot → Option Event
  | .activator => property.scope.activator?
  | .trigger => property.pattern.trigger?
  | .behaviour => some property.pattern.behaviour
  | .terminator => property.scope.terminator?

/-- The event stands in the slot: the scopes hold the activator and the terminator, the patterns the
trigger and the behaviour. -/
inductive EventAt (property : Property) : Slot → Event → Prop where
  | after {activator : Event} :
    property.scope = .after activator → EventAt property .activator activator
  | afterUntilActivator {activator terminator : Event} :
    property.scope = .afterUntil activator terminator → EventAt property .activator activator
  | upTo {terminator : Event} :
    property.scope = .upTo terminator → EventAt property .terminator terminator
  | afterUntilTerminator {activator terminator : Event} :
    property.scope = .afterUntil activator terminator → EventAt property .terminator terminator
  | existence {behaviour : Event} {maxTime : Double} :
    property.pattern = .existence behaviour maxTime → EventAt property .behaviour behaviour
  | absence {behaviour : Event} {maxTime : Double} :
    property.pattern = .absence behaviour maxTime → EventAt property .behaviour behaviour
  | responseTrigger {trigger behaviour : Event} {maxTime : Double} :
    property.pattern = .response trigger behaviour maxTime → EventAt property .trigger trigger
  | responseBehaviour {trigger behaviour : Event} {maxTime : Double} :
    property.pattern = .response trigger behaviour maxTime → EventAt property .behaviour behaviour
  | preventionTrigger {trigger behaviour : Event} {maxTime : Double} :
    property.pattern = .prevention trigger behaviour maxTime → EventAt property .trigger trigger
  | preventionBehaviour {trigger behaviour : Event} {maxTime : Double} :
    property.pattern = .prevention trigger behaviour maxTime →
    EventAt property .behaviour behaviour
  | requirementTrigger {behaviour trigger : Event} {maxTime : Double} :
    property.pattern = .requirement behaviour trigger maxTime → EventAt property .trigger trigger
  | requirementBehaviour {behaviour trigger : Event} {maxTime : Double} :
    property.pattern = .requirement behaviour trigger maxTime →
    EventAt property .behaviour behaviour

variable {property : Property} {slot : Slot} {event : Event}

/-- The accessors find the event that stands in the slot, and no other. -/
theorem event?_eq_some_iff : property.event? slot = some event ↔ property.EventAt slot event := by
  constructor
  · intro h
    obtain ⟨scope, pattern⟩ := property
    cases slot with
    | activator =>
      cases scope <;> cases h
      · exact .after rfl
      · exact .afterUntilActivator rfl
    | trigger =>
      cases pattern <;> cases h
      · exact .responseTrigger rfl
      · exact .preventionTrigger rfl
      · exact .requirementTrigger rfl
    | behaviour =>
      cases pattern <;> cases h
      · exact .existence rfl
      · exact .absence rfl
      · exact .responseBehaviour rfl
      · exact .preventionBehaviour rfl
      · exact .requirementBehaviour rfl
    | terminator =>
      cases scope <;> cases h
      · exact .upTo rfl
      · exact .afterUntilTerminator rfl
  · intro h
    cases h <;>
      simp only [event?, *, Scope.activator?, Scope.terminator?, Pattern.trigger?,
        Pattern.behaviour]

/-- The alias of the event in a slot. -/
def alias? (property : Property) (slot : Slot) : Option String :=
  (property.event? slot).bind Event.alias?

theorem alias?_eq (hEvent : property.event? slot = some event) :
    property.alias? slot = event.alias? := by
  simp [alias?, hEvent]

/-- The event in the first slot may refer to the one in the second. -/
inductive Sees (property : Property) : Slot → Slot → Prop where
  | triggerActivator : Sees property .trigger .activator
  | behaviourActivator : Sees property .behaviour .activator
  | behaviourTrigger : Sees property .behaviour .trigger
  | terminatorActivator : Sees property .terminator .activator
  | triggerBehaviour {behaviour trigger : Event} {maxTime : Double} :
    property.pattern = .requirement behaviour trigger maxTime → Sees property .trigger .behaviour

/-- The name is an alias that the event in the slot may refer to. -/
def Visible (property : Property) (slot : Slot) (name : String) : Prop :=
  ∃ other, property.Sees slot other ∧ property.alias? other = some name

/-- The rules for the event in one slot. -/
structure Keeps (property : Property) (slot : Slot) (event : Event) : Prop where
  /-- The guard refers to visible aliases, and not to that of its own event. -/
  refers : ∀ name, event.guard.Free name → property.Visible slot name ∧ event.alias? ≠ some name
  /-- The alias differs from the visible ones. -/
  names : ∀ name, event.alias? = some name → ¬property.Visible slot name
  /-- A quantifier hides neither a visible alias, nor that of the event, nor a variable. -/
  binds : ∀ vars name, event.guard.Binds vars name →
    ¬property.Visible slot name ∧ event.alias? ≠ some name ∧ name ∉ vars

/-- The rules for the events of a property. -/
def Disciplined (property : Property) : Prop :=
  ∀ slot event, property.event? slot = some event → property.Keeps slot event

end Property

/-! ## One event -/

namespace Event

variable {event : Event} {visible taken names : List String}

theorem checkReferences_eq_ok_iff :
    event.checkReferences visible names = .ok () ↔
      ∀ name ∈ names, name ∈ visible ∧ event.alias? ≠ some name := by
  induction names with
  | nil => simp [checkReferences]
  | cons name names ih =>
    rw [checkReferences, List.forall_mem_cons, ← ih]
    by_cases hSelf : event.alias? = some name
    · simp [hSelf, throw, throwThe, MonadExceptOf.throw]
    · by_cases hVisible : name ∈ visible
      · simp [hSelf, hVisible]
      · simp [hSelf, hVisible, throw, throwThe, MonadExceptOf.throw]

theorem checkAlias_eq_ok_iff :
    event.checkAlias taken = .ok () ↔ ∀ name, event.alias? = some name → name ∉ taken := by
  unfold checkAlias
  cases event.alias? with
  | none => simp
  | some name => simp

theorem checkBinding_eq_ok_iff :
    event.checkBinding visible taken = .ok () ↔
      (∀ name, event.guard.Free name → name ∈ visible ∧ event.alias? ≠ some name) ∧
      (∀ name, event.alias? = some name → name ∉ taken) ∧
      ∀ vars name, event.guard.Binds vars name →
        name ∉ visible ∧ event.alias? ≠ some name ∧ name ∉ vars := by
  rw [checkBinding, seq_eq_ok_iff, seq_eq_ok_iff, checkReferences_eq_ok_iff, checkAlias_eq_ok_iff,
    Expr.checkShadowing_eq_ok_iff]
  simp only [references, Expr.mem_references_iff, Expr.mem_freeOccurrences_iff, List.mem_append,
    Option.mem_toList, not_or, List.not_mem_nil, not_false_eq_true, true_and,
    and_assoc]

end Event

/-! ## Whole properties -/

namespace Property

variable {property : Property} {slot : Slot} {name : String}

/-- The visible aliases, in the order in which the check collects them. -/
def visible (property : Property) : Slot → List String
  | .activator => []
  | .trigger => (property.alias? .activator).toList ++
    match property.pattern with
    | .requirement behaviour _ _ => behaviour.alias?.toList
    | _ => []
  | .behaviour => (property.alias? .activator).toList ++ (property.alias? .trigger).toList
  | .terminator => (property.alias? .activator).toList

/-- The aliases from which that of an event has to differ. A trigger comes before the behaviour,
which is compared with it in turn. -/
def taken (property : Property) : Slot → List String
  | .trigger => (property.alias? .activator).toList
  | slot => property.visible slot

theorem mem_visible_iff : name ∈ property.visible slot ↔ property.Visible slot name := by
  constructor
  · intro h
    cases slot with
    | activator => cases h
    | trigger =>
      rcases List.mem_append.mp h with h | h
      · exact ⟨.activator, .triggerActivator, by simpa using h⟩
      · cases hPattern : property.pattern with
        | requirement behaviour trigger maxTime =>
          have hBehaviour := event?_eq_some_iff.mpr (.requirementBehaviour hPattern)
          refine ⟨.behaviour, .triggerBehaviour hPattern, ?_⟩
          rw [alias?_eq hBehaviour]
          simpa [hPattern] using h
        | _ => simp [hPattern] at h
    | behaviour =>
      rcases List.mem_append.mp h with h | h
      · exact ⟨.activator, .behaviourActivator, by simpa using h⟩
      · exact ⟨.trigger, .behaviourTrigger, by simpa using h⟩
    | terminator => exact ⟨.activator, .terminatorActivator, by simpa [visible] using h⟩
  · rintro ⟨other, hSees, hAlias⟩
    cases hSees with
    | triggerActivator | behaviourActivator | behaviourTrigger | terminatorActivator =>
      simp [visible, hAlias]
    | triggerBehaviour hPattern =>
      rw [alias?_eq (event?_eq_some_iff.mpr (.requirementBehaviour hPattern))] at hAlias
      simp [visible, hPattern, hAlias]

theorem visible_of_taken (h : name ∈ property.taken slot) : name ∈ property.visible slot := by
  cases slot with
  | trigger => exact List.mem_append_left _ h
  | _ => exact h

/-- The check goes through the slots. -/
theorem checkBinding_eq_ok_iff_slots :
    property.checkBinding = .ok () ↔
      ∀ slot event, property.event? slot = some event →
        event.checkBinding (property.visible slot) (property.taken slot) = .ok () := by
  rw [Slot.forall_iff]
  obtain ⟨scope, pattern⟩ := property
  cases scope <;> cases pattern <;>
    simp [checkBinding, seq_eq_ok_iff, event?, visible, taken, alias?, Scope.activator?,
      Scope.terminator?, Pattern.trigger?, Pattern.behaviour]

/-- The check of a property accepts exactly the disciplined ones. -/
theorem checkBinding_eq_ok_iff_disciplined :
    property.checkBinding = .ok () ↔ property.Disciplined := by
  rw [checkBinding_eq_ok_iff_slots]
  simp only [Event.checkBinding_eq_ok_iff, mem_visible_iff]
  constructor
  · intro hAll slot event hEvent
    obtain ⟨hRefers, hNames, hBinds⟩ := hAll slot event hEvent
    refine ⟨hRefers, fun name hAlias hVisible => ?_, hBinds⟩
    obtain ⟨other, hSees, hOther⟩ := hVisible
    cases hSees with
    | triggerBehaviour hPattern =>
      -- The behaviour, which sees the trigger, has been compared with it.
      have hTrigger : property.alias? .trigger = some name := by simp [alias?, hEvent, hAlias]
      obtain ⟨-, hBehaviour, -⟩ := hAll .behaviour _ rfl
      exact hBehaviour name hOther (mem_visible_iff.mpr ⟨.trigger, .behaviourTrigger, hTrigger⟩)
    | triggerActivator => exact hNames name hAlias (by simp [taken, hOther])
    | behaviourActivator => exact hNames name hAlias (by simp [taken, visible, hOther])
    | behaviourTrigger => exact hNames name hAlias (by simp [taken, visible, hOther])
    | terminatorActivator => exact hNames name hAlias (by simp [taken, visible, hOther])
  · intro hDisciplined slot event hEvent
    have hKeeps := hDisciplined slot event hEvent
    refine ⟨hKeeps.refers, fun name hAlias hTaken => hKeeps.names name hAlias ?_, hKeeps.binds⟩
    exact mem_visible_iff.mp (visible_of_taken hTaken)

end Property

/-! ## The three checks -/

theorem Assumption.checkBinding_eq_ok_iff {assumption : Assumption} :
    assumption.checkBinding = .ok () ↔
      (∀ name, ¬assumption.guard.Free name) ∧ assumption.guard.checkBinding = .ok () := by
  unfold checkBinding
  split
  · rename_i name names hReferences
    have hFree : assumption.guard.Free name := by
      rw [← Expr.mem_freeOccurrences_iff, ← Expr.mem_references_iff, hReferences]
      exact List.mem_cons_self
    constructor
    · intro h
      cases h
    · rintro ⟨hClosed, -⟩
      exact absurd hFree (hClosed name)
  · rename_i hReferences
    have hClosed : ∀ name, ¬assumption.guard.Free name := by
      intro name hFree
      rw [← Expr.mem_freeOccurrences_iff, ← Expr.mem_references_iff, hReferences] at hFree
      cases hFree
    exact ⟨fun h => ⟨hClosed, h⟩, fun h => h.2⟩

theorem Expr.checkBinding_eq_ok_iff {condition : Expr} :
    condition.checkBinding = .ok () ↔ ∀ vars name, condition.Binds vars name → name ∉ vars := by
  rw [checkBinding, checkShadowing_eq_ok_iff]
  simp

/-- The checks of properties, assumptions and conditions accept exactly what keeps to the
discipline: a property in which every event keeps to what its slot sees, an assumption without
references, and either of the latter two without a variable that hides another. -/
theorem checkBinding_iff_discipline :
    (∀ property : Property, property.checkBinding = .ok () ↔ property.Disciplined) ∧
    (∀ assumption : Assumption, assumption.checkBinding = .ok () ↔
      (∀ name, ¬assumption.guard.Free name) ∧
        ∀ vars name, assumption.guard.Binds vars name → name ∉ vars) ∧
    ∀ condition : Expr, condition.checkBinding = .ok () ↔
      ∀ vars name, condition.Binds vars name → name ∉ vars := by
  refine ⟨fun property => Property.checkBinding_eq_ok_iff_disciplined, fun assumption => ?_,
    fun condition => Expr.checkBinding_eq_ok_iff⟩
  rw [Assumption.checkBinding_eq_ok_iff, Expr.checkBinding_eq_ok_iff]

end TopicSpec
