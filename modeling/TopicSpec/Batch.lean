import TopicSpec.Phrase

/-! # Batches

A named entity carries properties and assumptions, each as a text until it is read. A run reads
every text in place. Errors of binding and typing are reported and leave their text; malformed
text is reported too, or ends the run, as the policy says. -/

namespace TopicSpec
set_option autoImplicit false

/-- A text, or what was read from it. -/
inductive Item (α : Type) where
  | text (text : String)
  | parsed (value : α)

inductive EntityKind where
  | node
  | configuration
  deriving DecidableEq

def EntityKind.name : EntityKind → String
  | node => "Node"
  | configuration => "Configuration"

structure Entity where
  kind : EntityKind
  name : String
  properties : List (Item Property)
  assumptions : List (Item Assumption)

namespace Entity

def ofTexts (kind : EntityKind) (name : String) (properties assumptions : List String) : Entity :=
  ⟨kind, name, properties.map .text, assumptions.map .text⟩

def addProperty (entity : Entity) (text : String) : Entity :=
  { entity with properties := entity.properties ++ [.text text] }

def addAssumption (entity : Entity) (text : String) : Entity :=
  { entity with assumptions := entity.assumptions ++ [.text text] }

def setProperty (entity : Entity) (index : Nat) (text : String) : Entity :=
  { entity with properties := entity.properties.set index (.text text) }

end Entity

inductive ItemKind where
  | property
  | assumption
  deriving DecidableEq

namespace ItemKind

def name : ItemKind → String
  | property => "property"
  | assumption => "assumption"

end ItemKind

/-- A text that was refused, and where it stands. -/
structure Diagnostic where
  entityKind : EntityKind
  entityName : String
  itemKind : ItemKind
  index : Nat
  text : String
  error : SpecError

def Diagnostic.render (d : Diagnostic) : String :=
  s!"Error in {d.entityKind.name} '{d.entityName}' when parsing {d.itemKind.name} " ++
    s!"`{d.text}`: {d.error.label} error: {d.error.detail}"

structure Report where
  parsed : Nat
  /-- The items that had been read before. -/
  skipped : Nat
  diagnostics : List Diagnostic

namespace Report

def empty : Report := ⟨0, 0, []⟩

def merge (a b : Report) : Report :=
  ⟨a.parsed + b.parsed, a.skipped + b.skipped, a.diagnostics ++ b.diagnostics⟩

def isClean (report : Report) : Bool := report.diagnostics.isEmpty

end Report

/-- What malformed text does to a run. -/
inductive Policy where
  | failFast
  | report
  deriving DecidableEq

/-- Tells whether a run goes on after an error. -/
def Policy.reports (policy : Policy) (e : SpecError) : Bool :=
  match e with
  | .malformed _ => policy = .report
  | _ => e.isLocal

/-- An occurrence that is logged. -/
inductive LogEntry where
  | reading (form : Form) (text : String)
  | refused (diagnostic : Diagnostic)
  | processed (kind : EntityKind) (name : String) (report : Report)

/-- The items after a run, or after the part of it that took place, with what happened. -/
structure Progress (α : Type) where
  items : List (Item α)
  report : Report
  log : List LogEntry
  /-- The error that ended the run. -/
  failure : Option SpecError

namespace Batch

/-- How the texts of one list are read. -/
structure Reading (α : Type) where
  form : Form
  read : String → Except SpecError α
  diagnose : (index : Nat) → (text : String) → SpecError → Diagnostic

variable {α : Type}

/-- Reads the texts of a list whose first item has the given index. -/
def runItems (policy : Policy) (reading : Reading α) (index : Nat) : List (Item α) → Progress α
  | [] => ⟨[], .empty, [], none⟩
  | .parsed value :: rest =>
    let after := runItems policy reading (index + 1) rest
    { after with
      items := .parsed value :: after.items
      report := Report.merge ⟨0, 1, []⟩ after.report }
  | .text text :: rest =>
    let entry := LogEntry.reading reading.form text
    match reading.read text with
    | .ok value =>
      let after := runItems policy reading (index + 1) rest
      { after with
        items := .parsed value :: after.items
        report := Report.merge ⟨1, 0, []⟩ after.report
        log := entry :: after.log }
    | .error e =>
      if policy.reports e then
        let diagnostic := reading.diagnose index text e
        let after := runItems policy reading (index + 1) rest
        { after with
          items := .text text :: after.items
          report := Report.merge ⟨0, 0, [diagnostic]⟩ after.report
          log := entry :: .refused diagnostic :: after.log }
      else ⟨.text text :: rest, .empty, [entry], some e⟩

def propertyReading (resolver : Option Resolver) (entity : Entity) : Reading Property where
  form := .property
  read := Property.ofText resolver
  diagnose := Diagnostic.mk entity.kind entity.name .property

def assumptionReading (resolver : Option Resolver) (entity : Entity) : Reading Assumption where
  form := .assumption
  read := Assumption.ofText resolver
  diagnose := Diagnostic.mk entity.kind entity.name .assumption

/-- What a run leaves, answers and logs. -/
structure Run where
  entity : Entity
  outcome : Except SpecError Report
  log : List LogEntry

/-- Reads the properties of an entity and then its assumptions. -/
def run (policy : Policy) (resolver : Option Resolver) (entity : Entity) : Run :=
  let properties := runItems policy (propertyReading resolver entity) 0 entity.properties
  let entity := { entity with properties := properties.items }
  match properties.failure with
  | some e => ⟨entity, .error e, properties.log⟩
  | none =>
    let assumptions := runItems policy (assumptionReading resolver entity) 0 entity.assumptions
    let entity := { entity with assumptions := assumptions.items }
    let log := properties.log ++ assumptions.log
    match assumptions.failure with
    | some e => ⟨entity, .error e, log⟩
    | none =>
      let report := properties.report.merge assumptions.report
      ⟨entity, .ok report, log ++ [.processed entity.kind entity.name report]⟩

end Batch
end TopicSpec
