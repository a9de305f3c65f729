import TopicSpec.Proofs.Binding.Resolution
import TopicSpec.Proofs.Phrase.Unchecked

/-! # The order of references

The events of an accepted property can be ordered so that every guard refers to earlier events
alone, with one exception: the trigger and the behaviour of a requirement see each other, and both
of their guards may make use of it. -/

namespace TopicSpec
set_option autoImplicit false

namespace Property

variable {property : Property} {slot other : Slot} {order : List Slot} {name : String}

/-- The guard in the first slot refers to an alias that the event in the second slot has, even if
another event has it too. -/
def RefersTo (property : Property) (slot other : Slot) : Prop :=
  ∃ event name, property.event? slot = some event ∧ event.guard.Free name ∧
    property.alias? other = some name

theorem refersTo_iff_any : property.RefersTo slot other ↔
    ((property.event? slot).any fun event =>
      event.references.any fun name => property.alias? other == some name) = true := by
  simp only [RefersTo, Option.any_eq_true, List.any_eq_true, beq_iff_eq, Event.references,
    Expr.mem_references_iff, Expr.mem_freeOccurrences_iff]
  constructor
  · rintro ⟨event, name, hEvent, hFree, hAlias⟩
    exact ⟨event, hEvent, name, hFree, hAlias⟩
  · rintro ⟨event, hEvent, name, hFree, hAlias⟩
    exact ⟨event, name, hEvent, hFree, hAlias⟩

instance : Decidable (property.RefersTo slot other) := decidable_of_iff _ refersTo_iff_any.symm

/-- In this order of the slots, every name that a guard refers to is the alias of an event, and
every event that has the alias stands before that of the guard. -/
structure Ordered (property : Property) (order : List Slot) : Prop where
  complete : order.Perm [.activator, .trigger, .behaviour, .terminator]
  known : ∀ slot event name, property.event? slot = some event → event.guard.Free name →
    ∃ other, property.alias? other = some name
  earlier : ∀ slot other, property.RefersTo slot other → order.idxOf other < order.idxOf slot

/-! ## Which event refers to which -/

/-- No event has the alias of the activator but the activator. -/
theorem eq_activator_of_alias? (h : property.Disciplined)
    (hActivator : property.alias? .activator = some name)
    (hOther : property.alias? other = some name) : other = .activator := by
  by_contra hNot
  have hSees : property.Sees other .activator := by
    cases other with
    | activator => exact absurd rfl hNot
    | trigger => exact .triggerActivator
    | behaviour => exact .behaviourActivator
    | terminator => exact .terminatorActivator
  obtain ⟨event, hEvent, hName⟩ := Option.bind_eq_some_iff.mp hOther
  exact (h other event hEvent).names name hName ⟨.activator, hSees, hActivator⟩

theorem RefersTo.ne (h : property.Disciplined) (hRefers : property.RefersTo slot other) :
    slot ≠ other := by
  rintro rfl
  obtain ⟨event, name, hEvent, hFree, hAlias⟩ := hRefers
  rw [alias?_eq hEvent] at hAlias
  exact ((h slot event hEvent).refers name hFree).2 hAlias

theorem not_activator_refersTo (h : property.Disciplined) :
    ¬property.RefersTo .activator other := by
  rintro ⟨event, name, hEvent, hFree, -⟩
  obtain ⟨⟨seen, hSees, -⟩, -⟩ := (h .activator event hEvent).refers name hFree
  cases hSees

theorem terminator_refersTo (h : property.Disciplined)
    (hRefers : property.RefersTo .terminator other) : other = .activator := by
  obtain ⟨event, name, hEvent, hFree, hAlias⟩ := hRefers
  obtain ⟨⟨seen, hSees, hSeen⟩, -⟩ := (h .terminator event hEvent).refers name hFree
  cases hSees with
  | terminatorActivator => exact eq_activator_of_alias? h hSeen hAlias

/-- The trigger of a requirement alone refers to the behaviour. -/
theorem trigger_refersTo_behaviour (h : property.Disciplined)
    (hRefers : property.RefersTo .trigger .behaviour) :
    ∃ behaviour trigger maxTime, property.pattern = .requirement behaviour trigger maxTime := by
  obtain ⟨event, name, hEvent, hFree, hAlias⟩ := hRefers
  obtain ⟨⟨seen, hSees, hSeen⟩, -⟩ := (h .trigger event hEvent).refers name hFree
  cases hSees with
  | triggerActivator => cases eq_activator_of_alias? h hSeen hAlias
  | triggerBehaviour hPattern => exact ⟨_, _, _, hPattern⟩

/-- Apart from the trigger and the behaviour, events refer to one another in one direction. -/
theorem RefersTo.asymm_or (h : property.Disciplined) (hRefers : property.RefersTo slot other)
    (hBack : property.RefersTo other slot) :
    slot = .trigger ∧ other = .behaviour ∨ slot = .behaviour ∧ other = .trigger := by
  have hNe := hRefers.ne h
  cases slot with
  | activator => exact absurd hRefers (not_activator_refersTo h)
  | terminator =>
    obtain rfl := terminator_refersTo h hRefers
    exact absurd hBack (not_activator_refersTo h)
  | trigger | behaviour =>
    cases other with
    | activator => exact absurd hBack (not_activator_refersTo h)
    | terminator => cases terminator_refersTo h hBack
    | trigger | behaviour => simp_all

/-! ## The order -/

/-- The trigger and the behaviour come last, the one that does not refer to the other before it. -/
theorem ordered_of_disciplined {first second : Slot} (h : property.Disciplined)
    (hLast : (first, second) ∈ [(Slot.trigger, Slot.behaviour), (.behaviour, .trigger)])
    (hNot : ¬property.RefersTo first second) :
    property.Ordered [.activator, .terminator, first, second] := by
  simp only [List.mem_cons, Prod.mk.injEq, List.not_mem_nil, or_false] at hLast
  constructor
  · rcases hLast with ⟨rfl, rfl⟩ | ⟨rfl, rfl⟩ <;> decide
  · intro slot event name hEvent hFree
    obtain ⟨⟨seen, -, hAlias⟩, -⟩ := (h slot event hEvent).refers name hFree
    exact ⟨seen, hAlias⟩
  · intro slot other hRefers
    have hNe := hRefers.ne h
    cases slot with
    | activator => exact absurd hRefers (not_activator_refersTo h)
    | terminator =>
      obtain rfl := terminator_refersTo h hRefers
      rcases hLast with ⟨rfl, rfl⟩ | ⟨rfl, rfl⟩ <;> decide
    | trigger | behaviour =>
      -- a slot does not refer to itself, and the first of the two not to the second
      rcases hLast with ⟨rfl, rfl⟩ | ⟨rfl, rfl⟩ <;> cases other <;> simp_all

theorem Ordered.not_mutual (h : property.Ordered order) (hRefers : property.RefersTo slot other) :
    ¬property.RefersTo other slot :=
  fun hBack => Nat.lt_asymm (h.earlier slot other hRefers) (h.earlier other slot hBack)

theorem exists_ordered_iff (h : property.Disciplined) :
    (∃ order, property.Ordered order) ↔
      ¬(property.RefersTo .trigger .behaviour ∧ property.RefersTo .behaviour .trigger) := by
  constructor
  · rintro ⟨order, hOrder⟩ ⟨hTrigger, hBehaviour⟩
    exact hOrder.not_mutual hTrigger hBehaviour
  · intro hOneWay
    by_cases hTrigger : property.RefersTo .trigger .behaviour
    · have hBehaviour := not_and.mp hOneWay hTrigger
      exact ⟨_, ordered_of_disciplined h (by decide) hBehaviour⟩
    · exact ⟨_, ordered_of_disciplined h (by decide) hTrigger⟩

end Property

/-- References between events are well-founded but for one case: the events of an accepted property
can be ordered so that every guard refers to aliases of earlier events alone, unless the guards of
the trigger and of the behaviour refer to each other. No other two guards do, and these two do so in
a requirement alone. -/
theorem references_are_ordered {resolver : Option Resolver} {text : String} {property : Property}
    (h : Property.ofText resolver text = .ok property) :
    ((∃ order, property.Ordered order) ↔
      ¬(property.RefersTo .trigger .behaviour ∧ property.RefersTo .behaviour .trigger)) ∧
    (∀ slot other, property.RefersTo slot other → property.RefersTo other slot →
      slot = .trigger ∧ other = .behaviour ∨ slot = .behaviour ∧ other = .trigger) ∧
    (property.RefersTo .trigger .behaviour →
      ∃ behaviour trigger maxTime, property.pattern = .requirement behaviour trigger maxTime) := by
  have hBinding := (Property.ofText_eq_ok_iff.mp h).2.1
  have hDisciplined := Property.checkBinding_eq_ok_iff_disciplined.mp hBinding
  exact ⟨Property.exists_ordered_iff hDisciplined,
    fun _ _ hRefers hBack => hRefers.asymm_or hDisciplined hBack,
    Property.trigger_refersTo_behaviour hDisciplined⟩

/-- The trigger refers to an alias that the terminator has as well as the behaviour. -/
def reusedAliasText : String :=
  "after s as S until t as B: b as B requires a as A \x7b x = @B.x and y = @S.y \x7d"

theorem reused_alias_is_ordered : ∃ property,
    Property.ofText none reusedAliasText = .ok property ∧
    property.RefersTo .trigger .behaviour ∧ property.RefersTo .trigger .terminator ∧
    ∃ order, property.Ordered order := by
  have hRead : (Property.ofText none reusedAliasText).toOption.map (fun property =>
      (decide (property.RefersTo .trigger .behaviour),
        decide (property.RefersTo .trigger .terminator),
        decide (property.RefersTo .behaviour .trigger))) = some (true, true, false) := by
    decide +kernel
  obtain ⟨property, hText, hFound⟩ := ok_of_toOption hRead
  simp only [Prod.mk.injEq, decide_eq_true_eq, decide_eq_false_iff_not] at hFound
  obtain ⟨hBehaviour, hTerminator, hNotBack⟩ := hFound
  exact ⟨property, hText, hBehaviour, hTerminator,
    (references_are_ordered hText).1.mpr fun hBoth => hNotBack hBoth.2⟩

def mutualRequirementText : String :=
  "globally: b as B \x7b x = @A.x \x7d requires a as A \x7b x = @B.x \x7d"

theorem mutual_requirement_has_no_order : ∃ property,
    Property.ofText none mutualRequirementText = .ok property ∧
    property.RefersTo .trigger .behaviour ∧ property.RefersTo .behaviour .trigger ∧
    ¬∃ order, property.Ordered order := by
  have hRead : (Property.ofText none mutualRequirementText).toOption.map (fun property =>
      (decide (property.RefersTo .trigger .behaviour),
        decide (property.RefersTo .behaviour .trigger))) = some (true, true) := by
    decide +kernel
  obtain ⟨property, hText, hFound⟩ := ok_of_toOption hRead
  simp only [Prod.mk.injEq, decide_eq_true_eq] at hFound
  obtain ⟨hTrigger, hBehaviour⟩ := hFound
  refine ⟨property, hText, hTrigger, hBehaviour, ?_⟩
  rintro ⟨order, hOrder⟩
  exact hOrder.not_mutual hTrigger hBehaviour

end TopicSpec
