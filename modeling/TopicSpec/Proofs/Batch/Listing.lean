import TopicSpec.Config.Basic
import TopicSpec.Proofs.Batch.Effect

/-! # Listings

A configuration lists texts in an order of its own. A run reads them in this order: what it counts
and reports is what the texts give that are read one by one, and it breaks off at the first whose
refusal is not reported. -/

namespace TopicSpec
set_option autoImplicit false

/-- The error that a computation ends with. -/
def failure? {ε α : Type} : Except ε α → Option ε
  | .ok _ => none
  | .error e => some e

/-- A text that a configuration lists, and where. -/
structure Listing where
  entityKind : EntityKind
  entityName : String
  itemKind : ItemKind
  index : Nat
  text : String

/-- The texts of one list of an entity, the first with the given index. -/
def EntityConfig.listed (kind : EntityKind) (entity : EntityConfig) (item : ItemKind)
    (index : Nat) (texts : List String) : List Listing :=
  (texts.zipIdx index).map fun (text, i) => ⟨kind, entity.name, item, i, text⟩

/-- The properties come before the assumptions. -/
def EntityConfig.listings (kind : EntityKind) (entity : EntityConfig) : List Listing :=
  entity.listed kind .property 0 entity.properties ++
    entity.listed kind .assumption 0 entity.assumptions

/-- The nodes come before the configurations. -/
def Config.entries (config : Config) : List (EntityKind × EntityConfig) :=
  config.nodes.map (EntityKind.node, ·) ++ config.configurations.map (EntityKind.configuration, ·)

def Config.listings (config : Config) : List Listing :=
  config.entries.flatMap fun (kind, entity) => entity.listings kind

def Diagnostic.location (d : Diagnostic) : EntityKind × String × ItemKind × Nat :=
  (d.entityKind, d.entityName, d.itemKind, d.index)

namespace Listing

variable {policy : Policy} {resolver : Option Resolver}

def location (l : Listing) : EntityKind × String × ItemKind × Nat :=
  (l.entityKind, l.entityName, l.itemKind, l.index)

/-- The error with which the text is refused if it is read on its own. -/
def refusal? (resolver : Option Resolver) (l : Listing) : Option SpecError :=
  match l.itemKind with
  | .property => failure? (Property.ofText resolver l.text)
  | .assumption => failure? (Assumption.ofText resolver l.text)

def diagnose (l : Listing) (e : SpecError) : Diagnostic :=
  ⟨l.entityKind, l.entityName, l.itemKind, l.index, l.text, e⟩

def isMalformed (resolver : Option Resolver) (l : Listing) : Bool :=
  match l.refusal? resolver with
  | some (.malformed _) => true
  | _ => false

/-- The error with which the text ends a run. -/
def fatal? (policy : Policy) (resolver : Option Resolver) (l : Listing) : Option SpecError :=
  (l.refusal? resolver).filter fun e => !policy.reports e

/-- What a command says that a text has ended. -/
def complaint (l : Listing) (e : SpecError) : String :=
  s!"Error: {l.entityKind.name} '{l.entityName}': {e.message}"

/-- The report on texts that are read one by one. -/
def report (resolver : Option Resolver) (listings : List Listing) : Report where
  parsed := listings.countP fun l => (l.refusal? resolver).isNone
  skipped := 0
  diagnostics := listings.filterMap fun l => (l.refusal? resolver).map l.diagnose

theorem report_append (a b : List Listing) :
    report resolver (a ++ b) = (report resolver a).merge (report resolver b) := by
  simp [report, Report.merge]

/-- There is a diagnostic for each text that is refused, and its location is that of the text. -/
theorem map_location_diagnostics (resolver : Option Resolver) (listings : List Listing) :
    (report resolver listings).diagnostics.map Diagnostic.location =
      (listings.filter fun l => (l.refusal? resolver).isSome).map location := by
  induction listings with
  | nil => rfl
  | cons l listings ih =>
    simp only [report] at ih ⊢
    cases hRefusal : l.refusal? resolver with
    | none => simp [hRefusal, ih]
    | some e => simp [hRefusal, ih, diagnose, location, Diagnostic.location]

theorem length_diagnostics (resolver : Option Resolver) (listings : List Listing) :
    (report resolver listings).diagnostics.length =
      listings.countP fun l => (l.refusal? resolver).isSome := by
  have h := congrArg List.length (map_location_diagnostics resolver listings)
  rwa [List.length_map, List.length_map, ← List.countP_eq_length_filter] at h

/-- Every text is either counted or reported. -/
theorem parsed_add_failed (resolver : Option Resolver) (listings : List Listing) :
    (report resolver listings).parsed + (report resolver listings).diagnostics.length =
      listings.length := by
  rw [length_diagnostics, List.length_eq_countP_add_countP fun l => (l.refusal? resolver).isNone]
  congr 2
  funext l
  cases l.refusal? resolver <;> rfl

theorem entity_of_mem {kind : EntityKind} {entity : EntityConfig} {l : Listing}
    (h : l ∈ entity.listings kind) : l.entityKind = kind ∧ l.entityName = entity.name := by
  simp only [EntityConfig.listings, EntityConfig.listed, List.mem_append, List.mem_map] at h
  obtain ⟨_, -, rfl⟩ | ⟨_, -, rfl⟩ := h <;> exact ⟨rfl, rfl⟩

theorem textual_of_failure? {α : Type} {e : SpecError} {result : Except SpecError α}
    (hResult : Concludes (fun _ => True) SpecError.Textual result)
    (h : failure? result = some e) : e.Textual := by
  cases result with
  | ok value => cases h
  | error found =>
    obtain rfl := Option.some.inj h
    exact (concludes_iff.mp hResult).2 _ rfl

theorem refusal?_textual {l : Listing} {e : SpecError} (h : l.refusal? resolver = some e) :
    e.Textual := by
  unfold refusal? at h
  split at h
  · exact textual_of_failure? (Property.ofText_textual resolver l.text) h
  · exact textual_of_failure? (Assumption.ofText_textual resolver l.text) h

theorem fatal?_of_accepted {l : Listing} (h : l.refusal? resolver = none) :
    l.fatal? policy resolver = none := by
  rw [fatal?, h]
  rfl

theorem fatal?_of_refused {l : Listing} {e : SpecError} (h : l.refusal? resolver = some e) :
    l.fatal? policy resolver = if policy.reports e then none else some e := by
  cases hReports : policy.reports e <;> simp [fatal?, h, hReports]

theorem fatal?_report (l : Listing) : l.fatal? .report resolver = none := by
  cases hRefusal : l.refusal? resolver with
  | none => exact fatal?_of_accepted hRefusal
  | some e => rw [fatal?_of_refused hRefusal, Policy.reports_of_textual (refusal?_textual hRefusal),
      if_pos rfl]

theorem fatal?_of_not_malformed {l : Listing} (h : l.isMalformed resolver = false) :
    l.fatal? policy resolver = none := by
  cases hRefusal : l.refusal? resolver with
  | none => exact fatal?_of_accepted hRefusal
  | some e =>
    rw [fatal?_of_refused hRefusal]
    cases e with
    | malformed => simp [isMalformed, hRefusal] at h
    | binding | typing => rfl
    | shape => cases refusal?_textual hRefusal

theorem fatal?_failFast_of_malformed {l : Listing} (h : l.isMalformed resolver = true) :
    ∃ e, l.refusal? resolver = some (.malformed e) ∧
      l.fatal? .failFast resolver = some (.malformed e) := by
  unfold isMalformed at h
  split at h
  case h_1 e hRefusal => exact ⟨e, hRefusal, fatal?_of_refused hRefusal⟩
  case h_2 => cases h

end Listing

/-! ## The run of an entity -/

namespace Batch

variable {α : Type} {policy : Policy} {resolver : Option Resolver}

/-- A run over texts fails with the first error that it cannot report, and reports on all of them
if there is none. -/
theorem runItems_listed (policy : Policy) (kind : EntityKind) (entity : EntityConfig)
    {item : ItemKind} {reading : Reading α}
    (hDiagnose : reading.diagnose = Diagnostic.mk kind entity.name item)
    (hRefusal : ∀ index text, Listing.refusal? resolver ⟨kind, entity.name, item, index, text⟩ =
      failure? (reading.read text))
    (index : Nat) (texts : List String) :
    let listings := entity.listed kind item index texts
    let progress := runItems policy reading index (texts.map .text)
    progress.failure = listings.findSome? (·.fatal? policy resolver) ∧
      (progress.failure = none → progress.report = Listing.report resolver listings) := by
  induction texts generalizing index with
  | nil => exact ⟨rfl, fun _ => rfl⟩
  | cons text texts ih =>
    obtain ⟨hFailure, hReport⟩ := ih (index + 1)
    have hText := hRefusal index text
    dsimp only [EntityConfig.listed] at hFailure hReport ⊢
    simp only [List.map_cons, List.zipIdx_cons, List.findSome?_cons, runItems]
    cases hRead : reading.read text with
    | ok value =>
      rw [hRead, failure?] at hText
      simp only [Listing.fatal?_of_accepted hText]
      refine ⟨hFailure, fun h => ?_⟩
      rw [hReport h]
      simp [Listing.report, Report.merge, hText, Nat.add_comm]
    | error e =>
      rw [hRead, failure?] at hText
      simp only [Listing.fatal?_of_refused hText]
      cases hReports : policy.reports e with
      | true =>
        refine ⟨hFailure, fun h => ?_⟩
        simp only [if_true, hReport h]
        simp [Listing.report, Report.merge, hText, hDiagnose, Listing.diagnose]
      | false => exact ⟨rfl, fun hNone => absurd hNone (Option.some_ne_none e)⟩

/-- The entity that a configuration describes. -/
def entityOf (kind : EntityKind) (entity : EntityConfig) : Entity :=
  .ofTexts kind entity.name entity.properties entity.assumptions

theorem outcome_run (policy : Policy) (resolver : Option Resolver) (kind : EntityKind)
    (entity : EntityConfig) :
    (run policy resolver (entityOf kind entity)).outcome =
      match (entity.listings kind).findSome? (·.fatal? policy resolver) with
      | some e => .error e
      | none => .ok (Listing.report resolver (entity.listings kind)) := by
  obtain ⟨hProperties, hReport⟩ := runItems_listed policy kind entity
    (rfl : (propertyReading resolver (entityOf kind entity)).diagnose = _) (fun _ _ => rfl) 0
    entity.properties
  obtain ⟨hAssumptions, hReport'⟩ := runItems_listed policy kind entity
    (rfl : (assumptionReading resolver (entityOf kind entity)).diagnose = _) (fun _ _ => rfl) 0
    entity.assumptions
  rw [EntityConfig.listings, List.findSome?_append, Listing.report_append, ← hProperties,
    ← hAssumptions]
  simp only [run, assumptionReading_with_properties]
  simp only [entityOf, Entity.ofTexts] at *
  split
  · next hFirst => simp only [hFirst, Option.some_or]
  · next hFirst =>
    split
    · next hSecond => simp only [hFirst, hSecond, Option.none_or]
    · next hSecond => simp only [hFirst, hSecond, Option.none_or, hReport hFirst, hReport' hSecond]

end Batch

end TopicSpec
