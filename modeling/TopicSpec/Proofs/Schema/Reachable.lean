import TopicSpec.Proofs.Phrase.Declared
import TopicSpec.Proofs.Schema.Lookup

/-! # Fields that references reach

A declared path is reached by naming its fields one after the other, with an element taken of each
array on the way. A prefix that is not declared itself is answered as a message, as the path goes on
behind it, and so inference comes through to the last field.
-/

namespace TopicSpec
open Typing
set_option autoImplicit false

namespace Schema

variable {schema : Schema} {root e : Expr} {name topic : String} {front fields : List String}
  {type : FieldType}

/-! ## Paths on the way -/

/-- The fields on the way to a path. -/
def Above (front fields : List String) : Prop := front <+: fields ∧ front ≠ [] ∧ front ≠ fields

instance (front fields : List String) : Decidable (Above front fields) :=
  inferInstanceAs (Decidable (front <+: fields ∧ front ≠ [] ∧ front ≠ fields))

theorem above_append_singleton (hFields : fields ≠ []) (name : String) :
    Above fields (fields ++ [name]) :=
  ⟨List.prefix_append _ _, hFields, by simp⟩

theorem Above.append_singleton (h : Above front fields) (name : String) :
    Above front (fields ++ [name]) := by
  obtain ⟨hPrefix, hFront, hProper⟩ := h
  refine ⟨hPrefix.trans (List.prefix_append _ _), hFront, ?_⟩
  rintro rfl
  have hLength := hPrefix.length_le
  rw [List.length_append, List.length_singleton] at hLength
  omega

theorem Above.path_isPrefix (h : Above front fields) :
    (".".intercalate front ++ ".").toList <+: (".".intercalate fields).toList := by
  obtain ⟨⟨back, rfl⟩, hFront, hProper⟩ := h
  have hBack : back ≠ [] := by
    rintro rfl
    exact hProper (List.append_nil front).symm
  refine ⟨(".".intercalate back).toList, ?_⟩
  rw [String.intercalate_append_of_ne_nil hFront hBack, ← String.toList_append]

/-- All that is declared on the way to a path holds fields. -/
def OpensTo (schema : Schema) (fields : List String) : Prop :=
  ∀ front, Above front fields → ∀ type, schema.find? (".".intercalate front) = some type →
    type = .base .message ∨ type = .array .message

instance (schema : Schema) (fields : List String) : Decidable (schema.OpensTo fields) :=
  decidable_of_iff
    (∀ front ∈ fields.inits, Above front fields →
      ∀ type ∈ schema.find? (".".intercalate front), type = .base .message ∨ type = .array .message)
    ⟨fun h front hAbove => h front ((List.mem_inits _ _).mpr hAbove.1) hAbove,
      fun h front _ => h front⟩

/-- What a schema answers for a path that it is to lead on from: an array of messages where it is
declared as one, and else a message. -/
def LeadsOn (schema : Schema) (path : String) : Prop :=
  schema.field? path =
    some (if schema.find? path = some (.array .message) then .array .message else .base .message)

theorem leadsOn_of_above (hDeclared : schema.find? (".".intercalate fields) = some type)
    (hOpens : schema.OpensTo fields) (hAbove : Above front fields) :
    schema.LeadsOn (".".intercalate front) := by
  unfold LeadsOn
  cases hFront : schema.find? (".".intercalate front) with
  | none =>
    have hMore : schema.Continues (".".intercalate front) :=
      ⟨_, SortedMap.find?_eq_some_iff.mp hDeclared, hAbove.path_isPrefix⟩
    exact field?_of_continues hFront hMore
  | some declared =>
    rcases hOpens front hAbove declared hFront with rfl | rfl
    · exact field?_of_declared hFront
    · exact field?_of_declared hFront

/-! ## References along a path -/

/-- The references that name the fields of a path behind a root, with an element at the place of a
number taken of what is declared as an array of messages, and of nothing else. -/
inductive Leads (schema : Schema) (root : Expr) : List String → Expr → Prop where
  | first (name : String) : Leads schema root [name] (.field root name)
  | nested {fields : List String} {base : Expr} (name : String) :
    Leads schema root fields base →
    schema.find? (".".intercalate fields) ≠ some (.array .message) →
    Leads schema root (fields ++ [name]) (.field base name)
  | element {fields : List String} {base : Expr} (position : Literal) (name : String) :
    Leads schema root fields base →
    schema.find? (".".intercalate fields) = some (.array .message) →
    literalKind position.value = .number →
    Leads schema root (fields ++ [name]) (.field (.index base (.literal position)) name)

theorem exists_leads (schema : Schema) (root : Expr) (hFields : fields ≠ []) :
    ∃ e, schema.Leads root fields e := by
  induction fields using List.reverseRecOn with
  | nil => exact absurd rfl hFields
  | append_singleton fields name ih =>
    by_cases hFirst : fields = []
    · subst hFirst
      exact ⟨_, .first name⟩
    · obtain ⟨base, hBase⟩ := ih hFirst
      by_cases hArray : schema.find? (".".intercalate fields) = some (.array .message)
      · exact ⟨_, .element ⟨"0", .int 0⟩ name hBase hArray rfl⟩
      · exact ⟨_, .nested name hBase hArray⟩

theorem Leads.ne_nil (h : schema.Leads root fields e) : fields ≠ [] := by
  cases h <;> simp

theorem Leads.reaches {origin : Option String} (h : schema.Leads root fields e)
    (hRoot : root.Reaches origin []) : e.Reaches origin fields := by
  induction h with
  | first name => exact .field name hRoot
  | nested name _ _ ih => exact .field name ih
  | element _ name _ _ _ ih => exact .field name (.element _ ih)

end Schema

/-- The resolver answers for a topic as a schema does. -/
def Resolver.Serves (resolver : Resolver) (topic : String) (schema : Schema) : Prop :=
  resolver.knows topic = true ∧ ∀ path, resolver.fieldType? topic path = schema.field? path

theorem TopicTable.serves_resolver {table : TopicTable} {topic : String} {schema : Schema}
    (h : table.find? topic = some schema) : table.resolver.Serves topic schema := by
  refine ⟨?_, fun path => ?_⟩
  · show (table.find? topic).isSome = true
    rw [h, Option.isSome_some]
  · show (table.find? topic).bind (Schema.field? · path) = schema.field? path
    rw [h, Option.bind_some]

namespace Typing.Environment

variable {env : Environment} {resolver : Resolver} {vars : List (String × Ty)} {root e base : Expr}
  {name topic : String} {origin : Option String} {fields : List String} {schema : Schema}
  {type : FieldType} {ty : Ty}

/-! ## Inference along a reference -/

/-- The expressions that stand for a message on a topic. -/
inductive Message (env : Environment) (vars : List (String × Ty)) (topic : String) :
    Expr → Prop where
  | this : env.topic = some topic → Message env vars topic .this
  | event {name : String} : name ∉ vars.map Prod.fst → env.aliasTopic? name = some topic →
    Message env vars topic (.var name)

theorem Message.inferUnder_eq (h : env.Message vars topic root) :
    env.inferUnder vars root = .ok (.only .message) := by
  cases h with
  | this => rfl
  | event hFree hAlias =>
    rw [inferUnder, nameType_eq, referent?_of_not_mem hFree, hAlias]
    rfl

theorem Message.exists_origin (h : env.Message vars topic root)
    (hKnown : resolver.knows topic = true) :
    ∃ origin, root.Reaches origin [] ∧ env.knownTopic? resolver vars origin = some topic := by
  cases h with
  | this hTopic =>
    refine ⟨none, .this, ?_⟩
    simp only [knownTopic?, hTopic, Option.filter_some, hKnown, if_true]
  | @event name hFree hAlias =>
    refine ⟨some name, .var name, ?_⟩
    rw [knownTopic?_eq, referent?_of_not_mem hFree, hAlias, Option.map_some]
    simp only [Option.filter_some, hKnown, if_true]

theorem inferUnder_field (hBase : env.inferUnder vars base = .ok (.only .message))
    (hDeclared : env.declared? vars (.field base name) = .ok (some ty)) :
    env.inferUnder vars (.field base name) = .ok ty := by
  rw [inferUnder, hBase, hDeclared]
  rfl

theorem inferUnder_element {position : Literal} {elements : Kinds}
    (hBase : env.inferUnder vars base = .ok (.array elements))
    (hPosition : literalKind position.value = .number) :
    env.inferUnder vars (.index base (.literal position)) = .ok (.of elements) := by
  rw [inferUnder, hBase, inferUnder, nodeType, hPosition]
  rfl

theorem declared?_of_reaches (hResolver : env.resolver = some resolver)
    (hTopic : env.knownTopic? resolver vars origin = some topic)
    (hReaches : e.Reaches origin fields) (hNames : "" ∉ fields)
    (hType : resolver.fieldType? topic (".".intercalate fields) = some type) :
    env.declared? vars e = .ok (some type.ty) := by
  simp only [declared?, hResolver, path?_of_reaches hReaches hNames, hTopic, hType]

/-- A reference has the type that the schema answers for its path, if it is led on from every path
on the way there. -/
theorem inferUnder_of_leads (hResolver : env.resolver = some resolver)
    (hServes : resolver.Serves topic schema) (hRoot : env.Message vars topic root)
    (hLeads : schema.Leads root fields e) (hNames : "" ∉ fields)
    (hOn : ∀ front, Schema.Above front fields → schema.LeadsOn (".".intercalate front))
    (hType : schema.field? (".".intercalate fields) = some type) :
    env.inferUnder vars e = .ok type.ty := by
  obtain ⟨hKnown, hAnswers⟩ := hServes
  obtain ⟨origin, hOrigin, hTopic⟩ := hRoot.exists_origin hKnown
  have hDeclared {fields : List String} {e : Expr} {type : FieldType}
      (hLeads : schema.Leads root fields e) (hNames : "" ∉ fields)
      (hType : schema.field? (".".intercalate fields) = some type) :
      env.declared? vars e = .ok (some type.ty) :=
    declared?_of_reaches hResolver hTopic (hLeads.reaches hOrigin) hNames ((hAnswers _).trans hType)
  induction hLeads generalizing type with
  | first name =>
    exact inferUnder_field hRoot.inferUnder_eq (hDeclared (.first name) hNames hType)
  | nested name hBase hPlain ih =>
    have hHere := hOn _ (Schema.above_append_singleton hBase.ne_nil name)
    rw [Schema.LeadsOn, if_neg hPlain] at hHere
    have hMessage := ih (fun hName => hNames (List.mem_append_left _ hName))
      (fun front hAbove => hOn front (hAbove.append_singleton name)) hHere
    exact inferUnder_field hMessage (hDeclared (.nested name hBase hPlain) hNames hType)
  | element position name hBase hArray hPosition ih =>
    have hHere := hOn _ (Schema.above_append_singleton hBase.ne_nil name)
    rw [Schema.LeadsOn, if_pos hArray] at hHere
    have hElements := ih (fun hName => hNames (List.mem_append_left _ hName))
      (fun front hAbove => hOn front (hAbove.append_singleton name)) hHere
    exact inferUnder_field (inferUnder_element hElements hPosition)
      (hDeclared (.element position name hBase hArray hPosition) hNames hType)

end Typing.Environment

/-- A path that a schema declares is reached from every message on its topic, be it the message at
hand or an event by its alias: a reference along the path exists, and each one is inferred with the
declared type. The paths on the way are answered as arrays of messages where they are declared so,
and as messages everywhere else, declared or not. -/
theorem declared_fields_are_reachable {schema : Schema} {fields : List String} {type : FieldType}
    {resolver : Resolver} {topic : String} (env : Environment) (vars : List (String × Ty))
    (hDeclared : schema.find? (".".intercalate fields) = some type) (hFields : fields ≠ [])
    (hNames : ∀ name ∈ fields, Scan.IsName name.toList) (hOpens : schema.OpensTo fields)
    (hResolver : env.resolver = some resolver) (hServes : resolver.Serves topic schema) :
    (∀ root, env.Message vars topic root →
      (∃ e, schema.Leads root fields e) ∧
      ∀ e, schema.Leads root fields e → env.inferUnder vars e = .ok type.ty) ∧
    ∀ front, Schema.Above front fields → schema.LeadsOn (".".intercalate front) := by
  have hOn (front : List String) (hAbove : Schema.Above front fields) :
      schema.LeadsOn (".".intercalate front) := Schema.leadsOn_of_above hDeclared hOpens hAbove
  refine ⟨fun root hRoot => ⟨Schema.exists_leads schema root hFields, fun e hLeads => ?_⟩, hOn⟩
  have hNonempty : "" ∉ fields := fun hEmpty => Expr.ne_empty_of_isName (hNames "" hEmpty) rfl
  exact Environment.inferUnder_of_leads hResolver hServes hRoot hLeads hNonempty hOn
    (Schema.field?_of_declared hDeclared)

/-- A path below an array, an undeclared message and a declared one. -/
theorem mixed_path_is_reached :
    let walker : Schema := .ofList
      [("legs", .array .message), ("legs.foot.tip", .base .message),
        ("legs.foot.tip.x", .base .float)]
    let env : Environment :=
      ⟨some "/walker", [("last", "/walker")],
        some (TopicTable.resolver (.ofList [("/walker", walker)]))⟩
    let reference (root : Expr) : Expr :=
      .field (.field (.field (.index (.field root "legs") (.literal ⟨"0", .int 0⟩)) "foot") "tip") "x"
    env.infer (reference .this) = .ok (.only .number) ∧
    env.infer (reference (.var "last")) = .ok (.only .number) ∧
    walker.LeadsOn "legs" ∧ walker.LeadsOn "legs.foot" := by
  intro walker env reference
  let fields := ["legs", "foot", "tip", "x"]
  have hLeads (root : Expr) : walker.Leads root fields (reference root) := by
    have hLegs : walker.Leads root ["legs"] (.field root "legs") := .first "legs"
    have hFoot := hLegs.element ⟨"0", .int 0⟩ "foot" (by decide +kernel) rfl
    have hTip := hFoot.nested "tip" (by decide +kernel)
    exact hTip.nested "x" (by decide +kernel)
  have hDeclared : walker.find? (".".intercalate fields) = some (.base .float) := by
    decide +kernel
  have hNames : ∀ name ∈ fields, Scan.IsName name.toList := by decide +kernel
  have hOpens : walker.OpensTo fields := by decide +kernel
  have hServes : (TopicTable.resolver (.ofList [("/walker", walker)])).Serves "/walker" walker :=
    TopicTable.serves_resolver rfl
  obtain ⟨hReached, hOn⟩ := declared_fields_are_reachable env [] hDeclared (List.cons_ne_nil _ _)
    hNames hOpens rfl hServes
  exact ⟨(hReached .this (.this rfl)).2 _ (hLeads _),
    (hReached (.var "last") (.event List.not_mem_nil rfl)).2 _ (hLeads _),
    hOn ["legs"] (by decide), hOn ["legs", "foot"] (by decide)⟩

end TopicSpec
