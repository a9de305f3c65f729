import TopicSpec.Proofs.Batch.Effect

/-! # Running again

What a run has settled is settled for every later run, which counts it as skipped. A later run
therefore takes up the work at the text that ended the earlier one, whatever has been put there in
the meantime. -/

namespace TopicSpec
set_option autoImplicit false

/-- What a report says apart from when the items were read. -/
def Report.tally (report : Report) : Nat × List Diagnostic :=
  (report.parsed + report.skipped, report.diagnostics)

/-- The report on the same items once they have been settled. -/
def Report.resumed (report : Report) : Report :=
  ⟨0, report.parsed + report.skipped, report.diagnostics⟩

theorem Report.tally_resumed (report : Report) : report.resumed.tally = report.tally := by
  simp [tally, resumed]

/-- An item of an entity. -/
structure Place where
  kind : ItemKind
  index : Nat
  deriving DecidableEq

/-- Puts a text in the place of an item. -/
def Entity.put (entity : Entity) (place : Place) (text : String) : Entity :=
  match place.kind with
  | .property => entity.setProperty place.index text
  | .assumption => { entity with assumptions := entity.assumptions.set place.index (.text text) }

/-- The properties come before the assumptions. -/
def Entity.AgreeBefore (place : Place) (a b : Entity) : Prop :=
  match place.kind with
  | .property => a.properties.take place.index = b.properties.take place.index
  | .assumption => a.properties = b.properties ∧
      a.assumptions.take place.index = b.assumptions.take place.index

/-! ## Settled items -/

namespace Item

variable {α : Type} {policy : Policy} {read : String → Except SpecError α}

/-- A text is settled by what it is read as, and anything else is left as it is. -/
theorem settle_cases (read : String → Except SpecError α) (item : Item α) :
    (∃ t value, item = .text t ∧ read t = .ok value ∧ item.settle read = .parsed value) ∨
      item.isReadable read = false ∧ item.settle read = item := by
  cases item with
  | parsed value => exact .inr ⟨rfl, rfl⟩
  | text t =>
    cases hRead : read t with
    | ok value => exact .inl ⟨t, value, rfl, hRead, by simp [settle, hRead]⟩
    | error e =>
      exact .inr ⟨by simp [isReadable, hRead, Except.isOk, Except.toBool], by simp [settle, hRead]⟩

theorem refusal?_settle (read : String → Except SpecError α) (item : Item α) :
    (item.settle read).refusal? read = item.refusal? read := by
  rcases settle_cases read item with ⟨t, value, rfl, hRead, hSettle⟩ | ⟨-, hSettle⟩
  · rw [hSettle]
    simp [refusal?, hRead]
  · rw [hSettle]

theorem settle_settle (item : Item α) : (item.settle read).settle read = item.settle read := by
  rcases settle_cases read item with ⟨t, value, rfl, -, hSettle⟩ | ⟨-, hSettle⟩
  · rw [hSettle]
    rfl
  · rw [hSettle, hSettle]

theorem isReadable_settle (read : String → Except SpecError α) (item : Item α) :
    (item.settle read).isReadable read = false := by
  rcases settle_cases read item with ⟨t, value, rfl, -, hSettle⟩ | ⟨hUnreadable, hSettle⟩
  · rw [hSettle]
    rfl
  · rw [hSettle, hUnreadable]

theorem isParsed_settle (read : String → Except SpecError α) (item : Item α) :
    (item.settle read).isParsed = (item.isReadable read || item.isParsed) := by
  rcases settle_cases read item with ⟨t, value, rfl, hRead, hSettle⟩ | ⟨hUnreadable, hSettle⟩
  · rw [hSettle]
    simp [isReadable, isParsed, hRead, Except.isOk, Except.toBool]
  · rw [hSettle, hUnreadable, Bool.false_or]

theorem Passes.settle {item : Item α} (h : item.Passes policy read) :
    (item.settle read).Passes policy read := by
  intro t e hRefusal
  apply h t e
  rwa [refusal?_settle] at hRefusal

/-- What ends no strict run ends no lenient one. -/
theorem Passes.lenient {item : Item α} (h : item.Passes .failFast read) :
    item.Passes .report read := by
  intro t e hRefusal
  have hReports := h t e hRefusal
  cases e with
  | malformed => cases hReports
  | binding | typing | shape => exact hReports

end Item

namespace Batch

variable {α : Type} {policy : Policy} {reading : Reading α} {index : Nat}
  {items before rest : List (Item α)}

theorem passes_settled {read : String → Except SpecError α}
    (h : ∀ item ∈ items, item.Passes policy read) :
    ∀ item ∈ items.map (Item.settle read), item.Passes policy read := by
  intro item hItem
  obtain ⟨item, hMem, rfl⟩ := List.mem_map.mp hItem
  exact (h item hMem).settle

theorem map_settle_settle (read : String → Except SpecError α) (items : List (Item α)) :
    (items.map (Item.settle read)).map (Item.settle read) = items.map (Item.settle read) := by
  rw [List.map_map]
  apply List.map_congr_left
  intro item _
  exact item.settle_settle

/-! ## Reports -/

theorem reportOn_settle (reading : Reading α) (index : Nat) (item : Item α) :
    reportOn reading index [item.settle reading.read] =
      (reportOn reading index [item]).resumed := by
  have hRefusal := item.refusal?_settle reading.read
  have hReadable := item.isReadable_settle reading.read
  have hParsed := item.isParsed_settle reading.read
  cases item with
  | parsed value => rfl
  | text t =>
    have hText : (Item.text t : Item α).isParsed = false := rfl
    simp only [reportOn, refusals, Report.resumed, List.zipIdx_cons, List.zipIdx_nil,
      List.filterMap_cons, List.filterMap_nil, List.countP_cons, List.countP_nil, hRefusal,
      hReadable, hParsed, hText]
    simp

theorem resumed_merge (a b : Report) : (a.merge b).resumed = a.resumed.merge b.resumed := by
  simp only [Report.resumed, Report.merge, Report.mk.injEq, true_and, and_true]
  omega

theorem reportOn_settled (reading : Reading α) (index : Nat) (items : List (Item α)) :
    reportOn reading index (items.map (Item.settle reading.read)) =
      (reportOn reading index items).resumed := by
  induction items generalizing index with
  | nil => rfl
  | cons item items ih =>
    rw [List.map_cons, reportOn_cons, ih, reportOn_settle, ← resumed_merge, ← reportOn_cons]

theorem tally_merge (a b : Report) :
    (a.merge b).tally = (a.tally.1 + b.tally.1, a.tally.2 ++ b.tally.2) := by
  simp only [Report.tally, Report.merge, Prod.mk.injEq, and_true]
  omega

/-! ## One list -/

/-- A run does not depend on which of the items that do not end it have been settled before. -/
theorem runItems_settled (reading : Reading α) (index : Nat) (rest : List (Item α))
    (h : ∀ item ∈ before, item.Passes policy reading.read) :
    let fresh := runItems policy reading index (before ++ rest)
    let resumed := runItems policy reading index (before.map (Item.settle reading.read) ++ rest)
    resumed.items = fresh.items ∧ resumed.failure = fresh.failure ∧
      resumed.report.tally = fresh.report.tally := by
  obtain ⟨hItems, hReport, hFailure⟩ := runItems_append index rest h
  obtain ⟨hItems', hReport', hFailure'⟩ := runItems_append index rest (passes_settled h)
  rw [List.length_map] at hItems' hReport' hFailure'
  refine ⟨?_, hFailure'.trans hFailure.symm, ?_⟩
  · rw [hItems', hItems, map_settle_settle]
  · rw [hReport', hReport, tally_merge, tally_merge, reportOn_settled, Report.tally_resumed]

/-! ## Both lists -/

/-- Two runs end alike. -/
structure SameEnd (a b : Run) : Prop where
  entity : a.entity = b.entity
  outcome : a.outcome.map Report.tally = b.outcome.map Report.tally

theorem SameEnd.trans {a b c : Run} (h : SameEnd a b) (h' : SameEnd b c) : SameEnd a c :=
  ⟨h.entity.trans h'.entity, h.outcome.trans h'.outcome⟩

section
variable {resolver : Option Resolver} {entity : Entity} {place : Place} {e : SpecError} {t : String}

/-- A run goes through the properties, and through the assumptions only if none of them ends it. -/
theorem sameEnd_of_properties {properties : List (Item Property)}
    (hItems : (runItems policy (propertyReading resolver entity) 0 properties).items =
      (runItems policy (propertyReading resolver entity) 0 entity.properties).items)
    (hFailure : (runItems policy (propertyReading resolver entity) 0 properties).failure =
      (runItems policy (propertyReading resolver entity) 0 entity.properties).failure)
    (hTally : (runItems policy (propertyReading resolver entity) 0 properties).report.tally =
      (runItems policy (propertyReading resolver entity) 0 entity.properties).report.tally) :
    SameEnd (run policy resolver { entity with properties }) (run policy resolver entity) := by
  have hReading : propertyReading resolver { entity with properties } =
      propertyReading resolver entity := rfl
  constructor
  · simp only [run, hReading, assumptionReading_with_properties, hItems, hFailure]
    split
    · rfl
    · split <;> rfl
  · simp only [run, hReading, assumptionReading_with_properties, hFailure]
    split
    · rfl
    · split
      · rfl
      · simp only [Except.map, tally_merge, hTally]

theorem sameEnd_of_assumptions {assumptions : List (Item Assumption)}
    (hPass : ∀ item ∈ entity.properties, item.Passes policy (Property.ofText resolver))
    (hItems : (runItems policy (assumptionReading resolver entity) 0 assumptions).items =
      (runItems policy (assumptionReading resolver entity) 0 entity.assumptions).items)
    (hFailure : (runItems policy (assumptionReading resolver entity) 0 assumptions).failure =
      (runItems policy (assumptionReading resolver entity) 0 entity.assumptions).failure)
    (hTally : (runItems policy (assumptionReading resolver entity) 0 assumptions).report.tally =
      (runItems policy (assumptionReading resolver entity) 0 entity.assumptions).report.tally) :
    SameEnd (run policy resolver { entity with assumptions }) (run policy resolver entity) := by
  obtain ⟨-, -, hNone⟩ := runItems_of_passes (propertyReading resolver entity) 0 hPass
  have hReading : propertyReading resolver { entity with assumptions } =
      propertyReading resolver entity := rfl
  have hReading' : ∀ properties, assumptionReading resolver ⟨entity.kind, entity.name, properties,
      assumptions⟩ = assumptionReading resolver entity := fun _ => rfl
  constructor
  · simp only [run, hReading, hReading', assumptionReading_with_properties, hNone, hItems, hFailure]
    split <;> rfl
  · simp only [run, hReading, hReading', assumptionReading_with_properties, hNone, hFailure]
    split
    · rfl
    · simp only [Except.map, tally_merge, hTally]

theorem run_settled_properties (entity : Entity) {before rest : List (Item Property)}
    (hSplit : entity.properties = before ++ rest)
    (h : ∀ item ∈ before, item.Passes policy (Property.ofText resolver)) :
    SameEnd (run policy resolver { entity with
        properties := before.map (Item.settle (Property.ofText resolver)) ++ rest })
      (run policy resolver entity) := by
  obtain ⟨hItems, hFailure, hTally⟩ :=
    runItems_settled (propertyReading resolver entity) 0 rest h
  rw [← hSplit] at hItems hFailure hTally
  exact sameEnd_of_properties hItems hFailure hTally

theorem run_settled_assumptions (entity : Entity) {before rest : List (Item Assumption)}
    (hPass : ∀ item ∈ entity.properties, item.Passes policy (Property.ofText resolver))
    (hSplit : entity.assumptions = before ++ rest)
    (h : ∀ item ∈ before, item.Passes policy (Assumption.ofText resolver)) :
    SameEnd (run policy resolver { entity with
        assumptions := before.map (Item.settle (Assumption.ofText resolver)) ++ rest })
      (run policy resolver entity) := by
  obtain ⟨hItems, hFailure, hTally⟩ :=
    runItems_settled (assumptionReading resolver entity) 0 rest h
  rw [← hSplit] at hItems hFailure hTally
  exact sameEnd_of_assumptions hPass hItems hFailure hTally

/-! ## Where a run ends -/

/-- The error that a run ends with, and the item that it ends at. -/
inductive FailsAt (policy : Policy) (resolver : Option Resolver) (entity : Entity) :
    Place → SpecError → Prop where
  | property {before rest : List (Item Property)} {t : String} {e : SpecError} :
    StopsAt policy (Property.ofText resolver) entity.properties before t e rest →
    FailsAt policy resolver entity ⟨.property, before.length⟩ e
  | assumption {before rest : List (Item Assumption)} {t : String} {e : SpecError} :
    (∀ item ∈ entity.properties, item.Passes policy (Property.ofText resolver)) →
    StopsAt policy (Assumption.ofText resolver) entity.assumptions before t e rest →
    FailsAt policy resolver entity ⟨.assumption, before.length⟩ e

theorem passes_or_failsAt (policy : Policy) (resolver : Option Resolver) (entity : Entity) :
    ((∀ item ∈ entity.properties, item.Passes policy (Property.ofText resolver)) ∧
      ∀ item ∈ entity.assumptions, item.Passes policy (Assumption.ofText resolver)) ∨
    ∃ place e, FailsAt policy resolver entity place e := by
  rcases passes_or_stopsAt policy (Property.ofText resolver) entity.properties with
    hProperties | ⟨before, t, e, rest, hStops⟩
  · rcases passes_or_stopsAt policy (Assumption.ofText resolver) entity.assumptions with
      hAssumptions | ⟨before, t, e, rest, hStops⟩
    · exact .inl ⟨hProperties, hAssumptions⟩
    · exact .inr ⟨_, e, .assumption hProperties hStops⟩
  · exact .inr ⟨_, e, .property hStops⟩

theorem FailsAt.outcome (h : FailsAt policy resolver entity place e) :
    (run policy resolver entity).outcome = .error e := by
  cases h with
  | property hStops => exact (run_of_stopsAt_property hStops).2
  | assumption hProperties hStops => exact (run_of_stopsAt_assumption hProperties hStops).2

/-- A run that ends with an error ends at some item. -/
theorem failsAt_of_error (h : (run policy resolver entity).outcome = .error e) :
    ∃ place, FailsAt policy resolver entity place e := by
  rcases passes_or_failsAt policy resolver entity with
    ⟨hProperties, hAssumptions⟩ | ⟨place, found, hFails⟩
  · cases h.symm.trans (run_of_passes hProperties hAssumptions).2
  · obtain rfl := Except.error.inj (h.symm.trans hFails.outcome)
    exact ⟨place, hFails⟩

/-- A run that ends well ends at no item. -/
theorem passes_of_ok {report : Report} (h : (run policy resolver entity).outcome = .ok report) :
    (∀ item ∈ entity.properties, item.Passes policy (Property.ofText resolver)) ∧
      ∀ item ∈ entity.assumptions, item.Passes policy (Assumption.ofText resolver) := by
  rcases passes_or_failsAt policy resolver entity with hPasses | ⟨place, e, hFails⟩
  · exact hPasses
  · cases h.symm.trans hFails.outcome

theorem StopsAt.settled {read : String → Except SpecError α}
    (h : StopsAt policy read items before t e rest) :
    StopsAt policy read (before.map (Item.settle read) ++ .text t :: rest)
      (before.map (Item.settle read)) t e rest where
  split := rfl
  passes := passes_settled h.passes
  refused := h.refused
  unreported := h.unreported

/-! ## The second run -/

theorem rerun_of_ok {report : Report} (h : (run policy resolver entity).outcome = .ok report) :
    let first := run policy resolver entity
    let again := run policy resolver first.entity
    again.entity = first.entity ∧ again.outcome = .ok report.resumed := by
  obtain ⟨hProperties, hAssumptions⟩ := passes_of_ok h
  obtain ⟨hEntity, hOutcome⟩ := run_of_passes hProperties hAssumptions
  obtain rfl := Except.ok.inj (h.symm.trans hOutcome)
  intro first again
  have hProperties' : ∀ item ∈ first.entity.properties,
      item.Passes policy (Property.ofText resolver) := by
    simp only [first, hEntity]
    exact passes_settled hProperties
  have hAssumptions' : ∀ item ∈ first.entity.assumptions,
      item.Passes policy (Assumption.ofText resolver) := by
    simp only [first, hEntity]
    exact passes_settled hAssumptions
  obtain ⟨hEntity', hOutcome'⟩ := run_of_passes hProperties' hAssumptions'
  simp only [first, hEntity] at hEntity' hOutcome'
  constructor
  · simp only [again, first, hEntity, hEntity', map_settle_settle]
  · simp only [again, first, hEntity, hOutcome', resumed_merge]
    exact congrArg Except.ok (congrArg₂ Report.merge
      (reportOn_settled (propertyReading resolver entity) 0 entity.properties)
      (reportOn_settled (assumptionReading resolver entity) 0 entity.assumptions))

theorem FailsAt.rerun (h : FailsAt policy resolver entity place e) :
    let first := run policy resolver entity
    let again := run policy resolver first.entity
    again.entity = first.entity ∧ again.outcome = .error e := by
  intro first again
  cases h with
  | property hStops =>
    have hEntity : first.entity = _ := (run_of_stopsAt_property hStops).1
    obtain ⟨hAgain, hOutcome⟩ : again.entity = _ ∧ again.outcome = _ := by
      apply run_of_stopsAt_property
      rw [hEntity]
      exact hStops.settled
    refine ⟨?_, hOutcome⟩
    rw [hAgain, hEntity, map_settle_settle]
  | assumption hProperties hStops =>
    have hEntity : first.entity = _ := (run_of_stopsAt_assumption hProperties hStops).1
    obtain ⟨hAgain, hOutcome⟩ : again.entity = _ ∧ again.outcome = _ := by
      apply run_of_stopsAt_assumption
      · rw [hEntity]
        exact passes_settled hProperties
      · rw [hEntity]
        exact hStops.settled
    refine ⟨?_, hOutcome⟩
    rw [hAgain, hEntity, map_settle_settle, map_settle_settle]

theorem set_at_stop (before rest : List (Item α)) (item u : Item α) :
    (before ++ item :: rest).set before.length u = before ++ u :: rest := by
  rw [List.set_append_right _ _ (Nat.le_refl _), Nat.sub_self, List.set_cons_zero]

/-- After a repair, a run goes on as if the text had been there from the start. -/
theorem FailsAt.repair (h : FailsAt policy resolver entity place e) (u : String) :
    SameEnd (run policy resolver ((run policy resolver entity).entity.put place u))
      (run policy resolver (entity.put place u)) := by
  cases h with
  | @property before rest t e hStops =>
    have hPut : entity.put ⟨.property, before.length⟩ u =
        { entity with properties := before ++ .text u :: rest } := by
      simp only [Entity.put, Entity.setProperty, hStops.split, set_at_stop]
    have hFirst : (run policy resolver entity).entity.put ⟨.property, before.length⟩ u =
        { entity with
          properties := before.map (Item.settle (Property.ofText resolver)) ++ .text u :: rest } := by
      have hSet := set_at_stop (before.map (Item.settle (Property.ofText resolver))) rest
        (.text t) (.text u)
      rw [List.length_map] at hSet
      simp only [Entity.put, Entity.setProperty, (run_of_stopsAt_property hStops).1, hSet]
    rw [hPut, hFirst]
    exact run_settled_properties { entity with properties := before ++ .text u :: rest } rfl
      hStops.passes
  | @assumption before rest t e hProperties hStops =>
    have hPut : entity.put ⟨.assumption, before.length⟩ u =
        { entity with assumptions := before ++ .text u :: rest } := by
      simp only [Entity.put, hStops.split, set_at_stop]
    have hFirst : (run policy resolver entity).entity.put ⟨.assumption, before.length⟩ u =
        { entity with
          properties := entity.properties.map (Item.settle (Property.ofText resolver))
          assumptions :=
            before.map (Item.settle (Assumption.ofText resolver)) ++ .text u :: rest } := by
      have hSet := set_at_stop (before.map (Item.settle (Assumption.ofText resolver))) rest
        (.text t) (.text u)
      rw [List.length_map] at hSet
      simp only [Entity.put, (run_of_stopsAt_assumption hProperties hStops).1, hSet]
    rw [hPut, hFirst]
    -- First the properties are taken back to their texts, then the assumptions.
    have hSettled := run_settled_properties
      { entity with
        assumptions := before.map (Item.settle (Assumption.ofText resolver)) ++ .text u :: rest }
      (List.append_nil _).symm hProperties
    rw [List.append_nil] at hSettled
    exact hSettled.trans (run_settled_assumptions
      { entity with assumptions := before ++ .text u :: rest } hProperties rfl hStops.passes)

/-! ## The two policies -/

theorem run_lenient_of_ok {report : Report}
    (h : (run .failFast resolver entity).outcome = .ok report) :
    (run .report resolver entity).outcome = .ok report ∧
      (run .report resolver entity).entity = (run .failFast resolver entity).entity := by
  obtain ⟨hProperties, hAssumptions⟩ := passes_of_ok h
  obtain ⟨hEntity, hOutcome⟩ := run_of_passes hProperties hAssumptions
  obtain ⟨hEntity', hOutcome'⟩ := run_of_passes
    (fun item hItem => (hProperties item hItem).lenient)
    (fun item hItem => (hAssumptions item hItem).lenient)
  exact ⟨hOutcome'.trans (hOutcome.symm.trans h), hEntity'.trans hEntity.symm⟩

theorem run_properties (policy : Policy) (resolver : Option Resolver) (entity : Entity) :
    (run policy resolver entity).entity.properties =
      (runItems policy (propertyReading resolver entity) 0 entity.properties).items := by
  unfold run
  dsimp only
  split
  · rfl
  · split <;> rfl

theorem run_assumptions
    (h : ∀ item ∈ entity.properties, item.Passes policy (Property.ofText resolver)) :
    (run policy resolver entity).entity.assumptions =
      (runItems policy (assumptionReading resolver entity) 0 entity.assumptions).items := by
  obtain ⟨-, -, hNone⟩ := runItems_of_passes (propertyReading resolver entity) 0 h
  simp only [run, hNone, assumptionReading_with_properties]
  split <;> rfl

/-- A list is settled as far as its items cannot end the run. -/
theorem take_runItems (reading : Reading α) (index : Nat) (hSplit : items = before ++ rest)
    (h : ∀ item ∈ before, item.Passes policy reading.read) :
    (runItems policy reading index items).items.take before.length =
      before.map (Item.settle reading.read) := by
  obtain ⟨hItems, -, -⟩ := runItems_append index rest h
  rw [hSplit, hItems, ← List.length_map (Item.settle reading.read), List.take_left]

theorem FailsAt.agreeBefore (h : FailsAt .failFast resolver entity place e) :
    Entity.AgreeBefore place (run .failFast resolver entity).entity
      (run .report resolver entity).entity := by
  cases h with
  | property hStops =>
    have hStrict := take_runItems (propertyReading resolver entity) 0
      hStops.split hStops.passes
    have hLenient := take_runItems (propertyReading resolver entity) 0
      hStops.split fun item hItem => (hStops.passes item hItem).lenient
    simp only [Entity.AgreeBefore, run_properties]
    exact hStrict.trans hLenient.symm
  | assumption hProperties hStops =>
    have hProperties' : ∀ item ∈ entity.properties,
        item.Passes .report (Property.ofText resolver) :=
      fun item hItem => (hProperties item hItem).lenient
    constructor
    · rw [run_properties, run_properties,
        (runItems_of_passes (propertyReading resolver entity) 0 hProperties).1,
        (runItems_of_passes (propertyReading resolver entity) 0 hProperties').1]
    · have hStrict := take_runItems (assumptionReading resolver entity) 0
        hStops.split hStops.passes
      have hLenient := take_runItems (assumptionReading resolver entity) 0
        hStops.split fun item hItem => (hStops.passes item hItem).lenient
      rw [run_assumptions hProperties, run_assumptions hProperties']
      exact hStrict.trans hLenient.symm

end
end Batch

/-- Runs in succession. After a run that ends well, a further one changes nothing, repeats the
diagnostics and counts as skipped what was read; after a run that ends with an error, a further
one ends there again, and if another text is put there, the two runs together do what a single run
does that finds this text from the start. Where no malformed text ends the run, the policies do the
same, and they do the same up to such a text otherwise. -/
theorem run_coherence (policy : Policy) (resolver : Option Resolver) (entity : Entity) :
    let run := Batch.run policy resolver
    let first := run entity
    let strict := Batch.run .failFast resolver entity
    let lenient := Batch.run .report resolver entity
    (∀ report, first.outcome = .ok report →
      (run first.entity).entity = first.entity ∧
      (run first.entity).outcome =
        .ok ⟨0, report.parsed + report.skipped, report.diagnostics⟩) ∧
    (∀ e, first.outcome = .error e →
      (run first.entity).entity = first.entity ∧ (run first.entity).outcome = .error e ∧
      ∃ place, Batch.FailsAt policy resolver entity place e) ∧
    (∀ place e, Batch.FailsAt policy resolver entity place e →
      first.outcome = .error e ∧
      ∀ u, (run (first.entity.put place u)).entity = (run (entity.put place u)).entity ∧
        (run (first.entity.put place u)).outcome.map Report.tally =
          (run (entity.put place u)).outcome.map Report.tally) ∧
    (∀ report, strict.outcome = .ok report →
      lenient.outcome = .ok report ∧ lenient.entity = strict.entity) ∧
    (∀ place e, Batch.FailsAt .failFast resolver entity place e →
      Entity.AgreeBefore place strict.entity lenient.entity) := by
  intro run first strict lenient
  refine ⟨?_, ?_, ?_, ?_, ?_⟩
  · intro report hOk
    exact Batch.rerun_of_ok hOk
  · intro e hError
    obtain ⟨place, hFails⟩ := Batch.failsAt_of_error hError
    obtain ⟨hEntity, hOutcome⟩ := hFails.rerun
    exact ⟨hEntity, hOutcome, place, hFails⟩
  · intro place e hFails
    refine ⟨hFails.outcome, fun u => ?_⟩
    have hSame := hFails.repair u
    exact ⟨hSame.entity, hSame.outcome⟩
  · intro report hOk
    exact Batch.run_lenient_of_ok hOk
  · intro place e hFails
    exact hFails.agreeBefore

theorem halfWritten_reruns :
    (∃ report, (Batch.run .report none .halfWritten).outcome = .ok report ∧
      (Batch.run .report none (Batch.run .report none .halfWritten).entity).outcome =
        .ok ⟨0, report.parsed + report.skipped, report.diagnostics⟩) ∧
    (∃ place e, Batch.FailsAt .failFast none .halfWritten place e ∧
      (Batch.run .failFast none (Batch.run .failFast none .halfWritten).entity).outcome =
        .error e ∧
      (Batch.run .failFast none
        ((Batch.run .failFast none .halfWritten).entity.put place "globally: no rain")).entity =
      (Batch.run .failFast none (Entity.halfWritten.put place "globally: no rain")).entity) ∧
    ∃ report, (Batch.run .report none (.ofTexts .node "/lamp" ["globally: no door"] [])).outcome =
      .ok report := by
  have hLenient : (Batch.run .report none .halfWritten).outcome.isOk = true := by decide +kernel
  have hStrict : (Batch.run .failFast none .halfWritten).outcome.isOk = false := by decide +kernel
  have hLamp : (Batch.run .failFast none
      (.ofTexts .node "/lamp" ["globally: no door"] [])).outcome.isOk = true := by decide +kernel
  refine ⟨?_, ?_, ?_⟩
  · cases hOutcome : (Batch.run .report none .halfWritten).outcome with
    | error e => simp [hOutcome, Except.isOk, Except.toBool] at hLenient
    | ok report =>
      obtain ⟨-, hAgain⟩ := (run_coherence .report none .halfWritten).1 report hOutcome
      exact ⟨report, rfl, hAgain⟩
  · cases hOutcome : (Batch.run .failFast none .halfWritten).outcome with
    | ok report => simp [hOutcome, Except.isOk, Except.toBool] at hStrict
    | error e =>
      obtain ⟨-, hAgain, place, hFails⟩ :=
        (run_coherence .failFast none .halfWritten).2.1 e hOutcome
      obtain ⟨-, hRepair⟩ := (run_coherence .failFast none .halfWritten).2.2.1 place e hFails
      exact ⟨place, e, hFails, hAgain, (hRepair "globally: no rain").1⟩
  · cases hOutcome : (Batch.run .failFast none
        (.ofTexts .node "/lamp" ["globally: no door"] [])).outcome with
    | error e => simp [hOutcome, Except.isOk, Except.toBool] at hLamp
    | ok report =>
      obtain ⟨hSame, -⟩ := (run_coherence .failFast none
        (.ofTexts .node "/lamp" ["globally: no door"] [])).2.2.2.1 report hOutcome
      exact ⟨report, hSame⟩

end TopicSpec
