import Mathlib.Data.List.Forall2
import TopicSpec.Batch
import TopicSpec.Proofs.Phrase.Contract

/-! # The effect of a run

A run settles its items one by one up to the first text whose refusal is not reported, and leaves
this one and all later ones alone. What it counts and reports are the items that it has settled.
-/

namespace TopicSpec
set_option autoImplicit false

/-! ## One item -/

namespace Item

variable {α : Type} {read : String → Except SpecError α}

def isText : Item α → Bool
  | text _ => true
  | parsed _ => false

def isParsed : Item α → Bool
  | text _ => false
  | parsed _ => true

/-- The text is replaced by what it is read as, if it can be read. -/
def settle (read : String → Except SpecError α) : Item α → Item α
  | text t =>
    match read t with
    | .ok value => parsed value
    | .error _ => text t
  | parsed value => parsed value

/-- A text that can be read. -/
def isReadable (read : String → Except SpecError α) : Item α → Bool
  | text t => (read t).isOk
  | parsed _ => false

/-- A text that cannot be read, with the error. -/
def refusal? (read : String → Except SpecError α) : Item α → Option (String × SpecError)
  | text t =>
    match read t with
    | .ok _ => none
    | .error e => some (t, e)
  | parsed _ => none

theorem refusal?_eq_some_iff {item : Item α} {t : String} {e : SpecError} :
    item.refusal? read = some (t, e) ↔ item = .text t ∧ read t = .error e := by
  cases item with
  | parsed value => simp [refusal?]
  | text found =>
    constructor
    · intro h
      simp only [refusal?] at h
      split at h
      · cases h
      · rename_i error hRead
        obtain ⟨rfl, rfl⟩ := Prod.mk.inj (Option.some.inj h)
        exact ⟨rfl, hRead⟩
    · rintro ⟨hText, hRead⟩
      obtain rfl := text.inj hText
      simp only [refusal?, hRead]

/-- The item has stayed as it was, or was a text and has been read. -/
inductive Becomes (read : String → Except SpecError α) : Item α → Item α → Prop where
  | kept (item : Item α) : Becomes read item item
  | read {t : String} {value : α} : read t = .ok value → Becomes read (text t) (parsed value)

theorem becomes_settle (read : String → Except SpecError α) (item : Item α) :
    Becomes read item (item.settle read) := by
  cases item with
  | parsed value => exact .kept _
  | text t =>
    cases hRead : read t with
    | ok value =>
      simp only [settle, hRead]
      exact .read hRead
    | error e =>
      simp only [settle, hRead]
      exact .kept _

/-- If the item is refused, the policy is to report this. -/
def Passes (policy : Policy) (read : String → Except SpecError α) (item : Item α) : Prop :=
  ∀ t e, item.refusal? read = some (t, e) → policy.reports e = true

end Item

namespace Batch

variable {α : Type} {policy : Policy} {reading : Reading α} {index : Nat}
  {items before rest : List (Item α)}

/-! ## One list -/

/-- The diagnostics of the texts that are refused; the index is that of the first item. -/
def refusals (read : String → Except SpecError α)
    (diagnose : Nat → String → SpecError → Diagnostic) (index : Nat) (items : List (Item α)) :
    List Diagnostic :=
  (items.zipIdx index).filterMap fun (item, i) =>
    (item.refusal? read).map fun (t, e) => diagnose i t e

/-- The report on items that have all been settled. -/
def reportOn (reading : Reading α) (index : Nat) (items : List (Item α)) : Report where
  parsed := items.countP (Item.isReadable reading.read)
  skipped := items.countP Item.isParsed
  diagnostics := refusals reading.read reading.diagnose index items

theorem merge_assoc (a b c : Report) : (a.merge b).merge c = a.merge (b.merge c) := by
  simp [Report.merge, Nat.add_assoc]

theorem reportOn_cons (item : Item α) (items : List (Item α)) :
    reportOn reading index (item :: items) =
      (reportOn reading index [item]).merge (reportOn reading (index + 1) items) := by
  cases hRefusal : item.refusal? reading.read <;>
    simp [reportOn, refusals, Report.merge, List.countP_cons, hRefusal, Nat.add_comm]

theorem runItems_cons (index : Nat) (rest : List (Item α)) {item : Item α}
    (h : item.Passes policy reading.read) :
    let after := runItems policy reading (index + 1) rest
    let progress := runItems policy reading index (item :: rest)
    progress.items = item.settle reading.read :: after.items ∧
      progress.report = (reportOn reading index [item]).merge after.report ∧
      progress.failure = after.failure := by
  cases item with
  | parsed value => exact ⟨rfl, rfl, rfl⟩
  | text t =>
    cases hRead : reading.read t with
    | ok value =>
      simp [runItems, reportOn, refusals, Item.settle, Item.isReadable, Item.isParsed,
        Item.refusal?, hRead, Except.isOk, Except.toBool]
    | error e =>
      have hReports : policy.reports e = true := h t e (by simp [Item.refusal?, hRead])
      simp [runItems, reportOn, refusals, Item.settle, Item.isReadable, Item.isParsed,
        Item.refusal?, hRead, hReports, Except.isOk, Except.toBool]

theorem runItems_append (index : Nat) (rest : List (Item α))
    (h : ∀ item ∈ before, item.Passes policy reading.read) :
    let after := runItems policy reading (index + before.length) rest
    let progress := runItems policy reading index (before ++ rest)
    progress.items = before.map (Item.settle reading.read) ++ after.items ∧
      progress.report = (reportOn reading index before).merge after.report ∧
      progress.failure = after.failure := by
  induction before generalizing index with
  | nil => simp [reportOn, refusals, Report.merge]
  | cons item before ih =>
    obtain ⟨hItems, hReport, hFailure⟩ :=
      runItems_cons index (before ++ rest) (h item List.mem_cons_self)
    -- Indices go on counting behind the first item, so the hypothesis is used one further.
    obtain ⟨hItems', hReport', hFailure'⟩ :=
      ih (index + 1) fun item hItem => h item (List.mem_cons_of_mem _ hItem)
    have hLength : index + (item :: before).length = index + 1 + before.length := by
      rw [List.length_cons]
      omega
    rw [hLength, List.cons_append, List.map_cons, reportOn_cons]
    refine ⟨?_, ?_, hFailure.trans hFailure'⟩
    · rw [hItems, hItems', List.cons_append]
    · rw [hReport, hReport', merge_assoc]

theorem runItems_of_passes (reading : Reading α) (index : Nat)
    (h : ∀ item ∈ items, item.Passes policy reading.read) :
    let progress := runItems policy reading index items
    progress.items = items.map (Item.settle reading.read) ∧
      progress.report = reportOn reading index items ∧ progress.failure = none := by
  have hRun := runItems_append index [] h
  simpa [runItems, Report.merge, Report.empty] using hRun

/-- The first text of a list whose refusal is not reported, with the items around it. -/
structure StopsAt (policy : Policy) (read : String → Except SpecError α) (items : List (Item α))
    (before : List (Item α)) (t : String) (e : SpecError) (rest : List (Item α)) : Prop where
  split : items = before ++ .text t :: rest
  passes : ∀ item ∈ before, item.Passes policy read
  refused : read t = .error e
  unreported : policy.reports e = false

theorem runItems_of_stopsAt (reading : Reading α) (index : Nat) {t : String} {e : SpecError}
    (h : StopsAt policy reading.read items before t e rest) :
    let progress := runItems policy reading index items
    progress.items = before.map (Item.settle reading.read) ++ .text t :: rest ∧
      progress.failure = some e := by
  obtain ⟨hItems, -, hFailure⟩ := runItems_append index (.text t :: rest) h.passes
  rw [h.split]
  simp [hItems, hFailure, runItems, h.refused, h.unreported]

/-- A list passes as a whole, or there is a first item that does not. -/
theorem passes_or_stopsAt (policy : Policy) (read : String → Except SpecError α)
    (items : List (Item α)) :
    (∀ item ∈ items, item.Passes policy read) ∨
      ∃ before t e rest, StopsAt policy read items before t e rest := by
  induction items with
  | nil => exact .inl nofun
  | cons item items ih =>
    by_cases hItem : item.Passes policy read
    · rcases ih with hAll | ⟨before, t, e, rest, hStops⟩
      · exact .inl (List.forall_mem_cons.mpr ⟨hItem, hAll⟩)
      · refine .inr ⟨item :: before, t, e, rest, ?_, ?_, hStops.refused, hStops.unreported⟩
        · rw [hStops.split, List.cons_append]
        · exact List.forall_mem_cons.mpr ⟨hItem, hStops.passes⟩
    · simp only [Item.Passes, not_forall, Bool.not_eq_true] at hItem
      obtain ⟨t, e, hRefusal, hUnreported⟩ := hItem
      obtain ⟨rfl, hRead⟩ := Item.refusal?_eq_some_iff.mp hRefusal
      exact .inr ⟨[], t, e, items, rfl, nofun, hRead, hUnreported⟩

theorem length_diagnostics (reading : Reading α) (index : Nat) (items : List (Item α)) :
    (reportOn reading index items).diagnostics.length =
      (items.map (Item.settle reading.read)).countP Item.isText := by
  induction items generalizing index with
  | nil => rfl
  | cons item items ih =>
    rw [reportOn_cons, Report.merge, List.length_append, ih, List.map_cons, List.countP_cons,
      Nat.add_comm]
    congr 1
    cases item with
    | parsed value => rfl
    | text t =>
      cases hRead : reading.read t <;>
        simp [reportOn, refusals, Item.refusal?, Item.settle, Item.isText, hRead]

/-! ## Both lists -/

/-- What a run that ends well has done. -/
structure Completes (policy : Policy) (resolver : Option Resolver) (entity after : Entity)
    (report : Report) : Prop where
  properties : after.properties = entity.properties.map (Item.settle (Property.ofText resolver))
  assumptions :
    after.assumptions = entity.assumptions.map (Item.settle (Assumption.ofText resolver))
  parsed : report.parsed =
    entity.properties.countP (Item.isReadable (Property.ofText resolver)) +
      entity.assumptions.countP (Item.isReadable (Assumption.ofText resolver))
  skipped : report.skipped =
    entity.properties.countP Item.isParsed + entity.assumptions.countP Item.isParsed
  diagnostics : report.diagnostics =
    refusals (Property.ofText resolver) (Diagnostic.mk entity.kind entity.name .property) 0
        entity.properties ++
      refusals (Assumption.ofText resolver) (Diagnostic.mk entity.kind entity.name .assumption) 0
        entity.assumptions
  remaining : report.diagnostics.length =
    after.properties.countP Item.isText + after.assumptions.countP Item.isText
  propertiesPass : ∀ item ∈ entity.properties, item.Passes policy (Property.ofText resolver)
  assumptionsPass : ∀ item ∈ entity.assumptions, item.Passes policy (Assumption.ofText resolver)

/-- What a run has done that ends with an error, by the list where it stops. -/
inductive Aborts (policy : Policy) (resolver : Option Resolver) (entity after : Entity)
    (e : SpecError) : Prop where
  | inProperties {before rest : List (Item Property)} {t : String} :
    StopsAt policy (Property.ofText resolver) entity.properties before t e rest →
    after.properties = before.map (Item.settle (Property.ofText resolver)) ++ .text t :: rest →
    after.assumptions = entity.assumptions → Aborts policy resolver entity after e
  | inAssumptions {before rest : List (Item Assumption)} {t : String} :
    (∀ item ∈ entity.properties, item.Passes policy (Property.ofText resolver)) →
    after.properties = entity.properties.map (Item.settle (Property.ofText resolver)) →
    StopsAt policy (Assumption.ofText resolver) entity.assumptions before t e rest →
    after.assumptions = before.map (Item.settle (Assumption.ofText resolver)) ++ .text t :: rest →
    Aborts policy resolver entity after e

section
variable {resolver : Option Resolver} {entity : Entity} {e : SpecError} {t : String}

theorem assumptionReading_with_properties (properties : List (Item Property)) :
    assumptionReading resolver { entity with properties } = assumptionReading resolver entity := rfl

theorem run_of_passes
    (hProperties : ∀ item ∈ entity.properties, item.Passes policy (Property.ofText resolver))
    (hAssumptions : ∀ item ∈ entity.assumptions, item.Passes policy (Assumption.ofText resolver)) :
    (run policy resolver entity).entity = { entity with
      properties := entity.properties.map (Item.settle (Property.ofText resolver))
      assumptions := entity.assumptions.map (Item.settle (Assumption.ofText resolver)) } ∧
    (run policy resolver entity).outcome =
      .ok ((reportOn (propertyReading resolver entity) 0 entity.properties).merge
        (reportOn (assumptionReading resolver entity) 0 entity.assumptions)) := by
  obtain ⟨hItems, hReport, hFailure⟩ :=
    runItems_of_passes (propertyReading resolver entity) 0 hProperties
  obtain ⟨hItems', hReport', hFailure'⟩ :=
    runItems_of_passes (assumptionReading resolver entity) 0 hAssumptions
  simp only [run, hFailure, assumptionReading_with_properties, hFailure', hReport, hReport', hItems,
    hItems']
  exact ⟨rfl, trivial⟩

theorem run_of_stopsAt_property {before rest : List (Item Property)}
    (h : StopsAt policy (Property.ofText resolver) entity.properties before t e rest) :
    (run policy resolver entity).entity = { entity with
      properties := before.map (Item.settle (Property.ofText resolver)) ++ .text t :: rest } ∧
    (run policy resolver entity).outcome = .error e := by
  obtain ⟨hItems, hFailure⟩ := runItems_of_stopsAt (propertyReading resolver entity) 0 h
  simp only [run, hFailure, hItems]
  exact ⟨rfl, trivial⟩

theorem run_of_stopsAt_assumption {before rest : List (Item Assumption)}
    (hProperties : ∀ item ∈ entity.properties, item.Passes policy (Property.ofText resolver))
    (h : StopsAt policy (Assumption.ofText resolver) entity.assumptions before t e rest) :
    (run policy resolver entity).entity = { entity with
      properties := entity.properties.map (Item.settle (Property.ofText resolver))
      assumptions := before.map (Item.settle (Assumption.ofText resolver)) ++ .text t :: rest } ∧
    (run policy resolver entity).outcome = .error e := by
  obtain ⟨hItems, -, hFailure⟩ :=
    runItems_of_passes (propertyReading resolver entity) 0 hProperties
  obtain ⟨hItems', hFailure'⟩ :=
    runItems_of_stopsAt (assumptionReading resolver entity) 0 h
  simp only [run, hFailure, assumptionReading_with_properties, hFailure', hItems, hItems']
  exact ⟨rfl, trivial⟩

theorem run_completes
    (hProperties : ∀ item ∈ entity.properties, item.Passes policy (Property.ofText resolver))
    (hAssumptions : ∀ item ∈ entity.assumptions, item.Passes policy (Assumption.ofText resolver)) :
    ∃ report, (run policy resolver entity).outcome = .ok report ∧
      Completes policy resolver entity (run policy resolver entity).entity report := by
  obtain ⟨hEntity, hOutcome⟩ := run_of_passes hProperties hAssumptions
  rw [hEntity]
  refine ⟨_, hOutcome, rfl, rfl, rfl, rfl, rfl, ?_, hProperties, hAssumptions⟩
  rw [Report.merge, List.length_append, length_diagnostics, length_diagnostics]
  rfl

theorem run_aborts_in_properties {before rest : List (Item Property)}
    (h : StopsAt policy (Property.ofText resolver) entity.properties before t e rest) :
    (run policy resolver entity).outcome = .error e ∧
      Aborts policy resolver entity (run policy resolver entity).entity e := by
  obtain ⟨hEntity, hOutcome⟩ := run_of_stopsAt_property h
  rw [hEntity]
  exact ⟨hOutcome, .inProperties h rfl rfl⟩

theorem run_aborts_in_assumptions {before rest : List (Item Assumption)}
    (hProperties : ∀ item ∈ entity.properties, item.Passes policy (Property.ofText resolver))
    (h : StopsAt policy (Assumption.ofText resolver) entity.assumptions before t e rest) :
    (run policy resolver entity).outcome = .error e ∧
      Aborts policy resolver entity (run policy resolver entity).entity e := by
  obtain ⟨hEntity, hOutcome⟩ := run_of_stopsAt_assumption hProperties h
  rw [hEntity]
  exact ⟨hOutcome, .inAssumptions hProperties rfl h rfl⟩

theorem run_completes_or_aborts (policy : Policy) (resolver : Option Resolver) (entity : Entity) :
    (∃ report, (run policy resolver entity).outcome = .ok report ∧
      Completes policy resolver entity (run policy resolver entity).entity report) ∨
    ∃ e, (run policy resolver entity).outcome = .error e ∧
      Aborts policy resolver entity (run policy resolver entity).entity e := by
  rcases passes_or_stopsAt policy (Property.ofText resolver) entity.properties with
    hProperties | ⟨before, t, e, rest, hStops⟩
  · rcases passes_or_stopsAt policy (Assumption.ofText resolver) entity.assumptions with
      hAssumptions | ⟨before, t, e, rest, hStops⟩
    · exact .inl (run_completes hProperties hAssumptions)
    · exact .inr ⟨e, run_aborts_in_assumptions hProperties hStops⟩
  · exact .inr ⟨e, run_aborts_in_properties hStops⟩

theorem becomes_of_settle (read : String → Except SpecError α) (before rest : List (Item α)) :
    List.Forall₂ (Item.Becomes read) (before ++ rest) (before.map (Item.settle read) ++ rest) := by
  induction before with
  | nil => exact List.forall₂_same.mpr fun item _ => .kept item
  | cons item before ih => exact .cons (item.becomes_settle read) ih

theorem becomes_of_settle_all (read : String → Except SpecError α) (items : List (Item α)) :
    List.Forall₂ (Item.Becomes read) items (items.map (Item.settle read)) := by
  simpa using becomes_of_settle read items []

theorem Completes.becomes {after : Entity} {report : Report}
    (h : Completes policy resolver entity after report) :
    List.Forall₂ (Item.Becomes (Property.ofText resolver)) entity.properties after.properties ∧
      List.Forall₂ (Item.Becomes (Assumption.ofText resolver)) entity.assumptions
        after.assumptions := by
  rw [h.properties, h.assumptions]
  exact ⟨becomes_of_settle_all _ _, becomes_of_settle_all _ _⟩

theorem Aborts.becomes {after : Entity} (h : Aborts policy resolver entity after e) :
    List.Forall₂ (Item.Becomes (Property.ofText resolver)) entity.properties after.properties ∧
      List.Forall₂ (Item.Becomes (Assumption.ofText resolver)) entity.assumptions
        after.assumptions := by
  cases h with
  | inProperties hStops hProperties hAssumptions =>
    rw [hStops.split, hProperties, hAssumptions]
    exact ⟨becomes_of_settle _ _ _, List.forall₂_same.mpr fun item _ => .kept item⟩
  | inAssumptions _ hProperties hStops hAssumptions =>
    rw [hProperties, hStops.split, hAssumptions]
    exact ⟨becomes_of_settle_all _ _, becomes_of_settle _ _ _⟩

theorem run_keeps_names (policy : Policy) (resolver : Option Resolver) (entity : Entity) :
    (run policy resolver entity).entity.kind = entity.kind ∧
      (run policy resolver entity).entity.name = entity.name := by
  unfold run
  dsimp only
  split
  · exact ⟨rfl, rfl⟩
  · split <;> exact ⟨rfl, rfl⟩

end

end Batch

/-! ## Errors that texts cause -/

theorem Property.ofText_textual (resolver : Option Resolver) (text : String) :
    Concludes (fun _ => True) SpecError.Textual (Property.ofText resolver text) := by
  refine concludes_readTree fun tree h => concludes_bind (stands_of_ofText resolver h) ?_
  intro phrase hSense
  obtain ⟨property, rfl⟩ := Phrase.eq_property_of_sense hSense
  trivial

theorem Assumption.ofText_textual (resolver : Option Resolver) (text : String) :
    Concludes (fun _ => True) SpecError.Textual (Assumption.ofText resolver text) := by
  refine concludes_readTree fun tree h => concludes_bind (stands_of_ofText resolver h) ?_
  intro phrase hSense
  obtain ⟨assumption, rfl⟩ := Phrase.eq_assumption_of_sense hSense
  trivial

theorem Policy.reports_of_textual {e : SpecError} (h : e.Textual) : report.reports e = true := by
  cases e with
  | malformed | binding | typing => rfl
  | shape => cases h

/-- No text keeps a run from its end that reports whatever it can. -/
theorem Item.passes_of_textual {α : Type} {read : String → Except SpecError α} (item : Item α)
    (h : ∀ t, Concludes (fun _ => True) SpecError.Textual (read t)) : item.Passes .report read := by
  intro t e hRefusal
  obtain ⟨-, hRead⟩ := refusal?_eq_some_iff.mp hRefusal
  exact Policy.reports_of_textual ((concludes_iff.mp (h t)).2 e hRead)

/-- The effect of a run on an entity: each item stays in its place and stays what it is, or is a
text and has been read. A run that ends well has settled all items and reports on them; a run that
is aborted has settled those before the first text whose refusal is not reported. Where all refusals
are to be reported, a run ends well. -/
theorem run_effect (policy : Policy) (resolver : Option Resolver) (entity : Entity) :
    let run := Batch.run policy resolver entity
    run.entity.kind = entity.kind ∧ run.entity.name = entity.name ∧
    List.Forall₂ (Item.Becomes (Property.ofText resolver)) entity.properties
      run.entity.properties ∧
    List.Forall₂ (Item.Becomes (Assumption.ofText resolver)) entity.assumptions
      run.entity.assumptions ∧
    (∀ report, run.outcome = .ok report →
      Batch.Completes policy resolver entity run.entity report) ∧
    (∀ e, run.outcome = .error e → Batch.Aborts policy resolver entity run.entity e) ∧
    (policy = .report → ∃ report, run.outcome = .ok report) := by
  intro run
  obtain ⟨hKind, hName⟩ := Batch.run_keeps_names policy resolver entity
  refine ⟨hKind, hName, ?_⟩
  rcases Batch.run_completes_or_aborts policy resolver entity with
    ⟨report, hOutcome, hCompletes⟩ | ⟨e, hOutcome, hAborts⟩
  · refine ⟨hCompletes.becomes.1, hCompletes.becomes.2, ?_, ?_, fun _ => ⟨report, hOutcome⟩⟩
    · intro other hOther
      obtain rfl := Except.ok.inj (hOutcome.symm.trans hOther)
      exact hCompletes
    · intro e hError
      cases hOutcome.symm.trans hError
  · refine ⟨hAborts.becomes.1, hAborts.becomes.2, ?_, ?_, ?_⟩
    · intro report hReport
      cases hOutcome.symm.trans hReport
    · intro other hOther
      obtain rfl := Except.error.inj (hOutcome.symm.trans hOther)
      exact hAborts
    · rintro rfl
      have hProperties : ∀ item ∈ entity.properties,
          item.Passes .report (Property.ofText resolver) :=
        fun item _ => item.passes_of_textual (Property.ofText_textual resolver)
      have hAssumptions : ∀ item ∈ entity.assumptions,
          item.Passes .report (Assumption.ofText resolver) :=
        fun item _ => item.passes_of_textual (Assumption.ofText_textual resolver)
      obtain ⟨report, hReport, -⟩ := Batch.run_completes hProperties hAssumptions
      exact ⟨report, hReport⟩

/-- An entity whose second property is malformed. -/
def Entity.halfWritten : Entity :=
  .ofTexts .node "/driver" ["globally: no door", "globally: no", "globally: some lamp"]
    ["lamp \x7b on \x7d"]

theorem halfWritten_aborts : ∃ e,
    Batch.Aborts .failFast none .halfWritten (Batch.run .failFast none .halfWritten).entity e := by
  have hError : (Batch.run .failFast none .halfWritten).outcome.isOk = false := by decide +kernel
  cases hOutcome : (Batch.run .failFast none .halfWritten).outcome with
  | ok report =>
    rw [hOutcome] at hError
    cases hError
  | error e => exact ⟨e, (run_effect .failFast none .halfWritten).2.2.2.2.2.1 e hOutcome⟩

end TopicSpec
