import Mathlib.Data.List.Induction
import TopicSpec.Proofs.Config.FirstFault
import TopicSpec.Proofs.Schema.Lookup

/-! # Validation of configurations

A draft is accepted exactly if there is no fault in it, and otherwise the first of its faults is
told: of its types, its levels and the names of its entities. -/

namespace TopicSpec
set_option autoImplicit false

/-! ## Names of types -/

theorem BaseType.ofName_eq_ok_iff {word : String} {type : BaseType} :
    ofName word = .ok type ↔ word = type.name := by
  constructor
  · intro h
    unfold ofName at h
    split at h
    next found hFound =>
      obtain rfl := Except.ok.inj h
      have hName : (found.name == word) = true := by simpa using List.find?_some hFound
      exact (eq_of_beq hName).symm
    next => cases h
  · rintro rfl
    exact ofName_name type

namespace FieldType

/-- The text is the name of the type, with blanks around it and before the brackets of an array. -/
def IsNamedBy (text : String) : FieldType → Prop
  | base type => Text.trim text.toList = type.name.toList
  | array type => ∃ element, Text.trim text.toList = element ++ ['[', ']'] ∧
      Text.trim element = type.name.toList

theorem ofText_eq_ok_iff {text : String} {type : FieldType} :
    ofText text = .ok type ↔ type.IsNamedBy text := by
  constructor
  · intro h
    unfold ofText at h
    dsimp only at h
    split at h
    next element hReverse =>
      have hText : Text.trim text.toList = element.reverse ++ ['[', ']'] := by
        simpa using congrArg List.reverse hReverse
      obtain ⟨found, hName, rfl⟩ := ok_of_map h
      refine ⟨element.reverse, hText, ?_⟩
      rw [← BaseType.ofName_eq_ok_iff.mp hName, String.toList_ofList]
    next =>
      obtain ⟨found, hName, rfl⟩ := ok_of_map h
      show Text.trim text.toList = found.name.toList
      rw [← BaseType.ofName_eq_ok_iff.mp hName, String.toList_ofList]
  · intro h
    cases type with
    | base type =>
      have hText : Text.trim text.toList = type.name.toList := h
      rw [ofText, hText]
      cases type <;> rfl
    | array type =>
      obtain ⟨element, hText, hElement⟩ := h
      have hReverse : (Text.trim text.toList).reverse = ']' :: '[' :: element.reverse := by
        simp [hText]
      rw [ofText, hReverse]
      simp only [List.reverse_reverse, hElement, String.ofList_toList, BaseType.ofName_name]
      rfl

end FieldType

/-! ## The parts of a draft -/

namespace Config

/-- The error of a field whose type has no name. -/
def TypeFault (topic : String) (field : String × String) (e : ConfigError) : Prop :=
  ∃ error, FieldType.ofText field.2 = .error error ∧ e = .fieldType topic field.1 error

theorem tellsFirst_fieldType (topic : String) (field : String × String) :
    TellsFirst (TypeFault topic field)
      ((FieldType.ofText field.2).mapError (.fieldType topic field.1)) := by
  unfold TypeFault
  cases FieldType.ofText field.2 with
  | ok type => exact fun e ⟨error, hError, _⟩ => nomatch hError
  | error error =>
    refine ⟨⟨error, rfl, rfl⟩, ?_⟩
    rintro _ ⟨other, hOther, rfl⟩
    cases hOther
    exact .inl rfl

theorem tellsFirst_schema (topic : String) (fields : SortedMap String) :
    TellsFirst (fun e => ∃ field ∈ fields.entries, TypeFault topic field e)
      (schema topic fields) := by
  refine tellsFirst_foldlM ?_ ?_ _
  · rintro schema ⟨path, typeName⟩
    exact tellsFirst_map (tellsFirst_fieldType topic (path, typeName))
  · refine fields.sorted.imp fun hLess => ?_
    rintro _ _ ⟨error, -, rfl⟩ ⟨error', -, rfl⟩
    exact .path hLess

/-- The errors of the fields of all topics. -/
def TypeFaults (topics : SortedMap (SortedMap String)) (e : ConfigError) : Prop :=
  ∃ topic ∈ topics.entries, ∃ field ∈ topic.2.entries, TypeFault topic.1 field e

theorem tellsFirst_topicTable (topics : SortedMap (SortedMap String)) :
    TellsFirst (TypeFaults topics) (topicTable topics) := by
  refine tellsFirst_foldlM ?_ ?_ _
  · rintro table ⟨topic, fields⟩
    exact tellsFirst_map (tellsFirst_schema topic fields)
  · refine topics.sorted.imp fun hLess => ?_
    rintro _ _ ⟨_, -, error, -, rfl⟩ ⟨_, -, error', -, rfl⟩
    exact .topic hLess

/-- The level is one of those that are known, in small letters or capitals. -/
def IsKnownLevel (level : String) : Prop :=
  ∃ known ∈ ConfigError.levels, level.toList.map Char.toLower = known.toList.map Char.toLower

theorem isLevel_iff {level : String} : isLevel level = true ↔ IsKnownLevel level := by
  have hLower : ∀ known ∈ ConfigError.levels, known.toList.map Char.toLower = known.toList := by
    decide +kernel
  rw [isLevel, List.contains_iff_mem]
  constructor
  · intro h
    refine ⟨_, h, ?_⟩
    rw [hLower _ h, String.toList_ofList]
  · rintro ⟨known, hKnown, hSame⟩
    rwa [hSame, hLower known hKnown, String.ofList_toList]

/-- The error of the general level or of that of a module. -/
def LevelFault (target : Option String) (level : String) (e : ConfigError) : Prop :=
  ¬IsKnownLevel level ∧ e = .level target level

theorem tellsFirst_checkLevel (target : Option String) (level : String) :
    TellsFirst (LevelFault target level) (checkLevel target level) := by
  unfold checkLevel
  split
  next hLevel => exact fun e hFault => hFault.1 (isLevel_iff.mp hLevel)
  next hLevel => exact ⟨⟨mt isLevel_iff.mpr hLevel, rfl⟩, fun _ hOther => .inl hOther.2⟩

/-- The errors of the levels of all modules. -/
def ModuleFaults (modules : SortedMap String) (e : ConfigError) : Prop :=
  ∃ entry ∈ modules.entries, LevelFault (some entry.1) entry.2 e

theorem tellsFirst_checkModules (modules : SortedMap String) :
    TellsFirst (ModuleFaults modules)
      (modules.entries.forM fun (target, level) => checkLevel (some target) level) := by
  refine tellsFirst_forM (fun entry => tellsFirst_checkLevel (some entry.1) entry.2) ?_
  refine modules.sorted.imp fun hLess => ?_
  rintro _ _ ⟨-, rfl⟩ ⟨-, rfl⟩
  exact .module hLess

/-- The errors of the name of one entity: it is empty, or among those of the entities before. -/
def NameFault (kind : EntityKind) (index : Nat) (before : List String) (entity : EntityConfig)
    (e : ConfigError) : Prop :=
  Text.trim entity.name.toList = [] ∧ e = .emptyName kind index ∨
    entity.name ∈ before ∧ e = .duplicateName kind index entity.name

/-- The errors of the names of entities, where the first one has the given index and others, whose
names are given, stand before it. -/
def NameFaults (kind : EntityKind) (index : Nat) (seen : List String)
    (entities : List EntityConfig) (e : ConfigError) : Prop :=
  ∃ before entity behind, entities = before ++ entity :: behind ∧
    NameFault kind (index + before.length) ((before.map (·.name)).reverse ++ seen) entity e

section
variable {kind : EntityKind} {index : Nat} {seen : List String} {entity : EntityConfig}
  {rest : List EntityConfig} {e : ConfigError}

theorem nameFaults_cons_iff :
    NameFaults kind index seen (entity :: rest) e ↔
      NameFault kind index seen entity e ∨
        NameFaults kind (index + 1) (entity.name :: seen) rest e := by
  constructor
  · rintro ⟨before, found, behind, hSplit, hFault⟩
    cases before with
    | nil =>
      obtain ⟨rfl, -⟩ := List.cons.inj hSplit
      exact .inl hFault
    | cons first before =>
      obtain ⟨rfl, hRest⟩ := List.cons.inj hSplit
      refine .inr ⟨before, found, behind, hRest, ?_⟩
      simpa [Nat.add_assoc, Nat.add_comm 1] using hFault
  · rintro (hFault | ⟨before, found, behind, rfl, hFault⟩)
    · exact ⟨[], entity, rest, rfl, hFault⟩
    · refine ⟨entity :: before, found, behind, rfl, ?_⟩
      simpa [Nat.add_assoc, Nat.add_comm 1] using hFault

/-- The check of the first of several names. -/
def checkName (kind : EntityKind) (index : Nat) (seen : List String) (entity : EntityConfig) :
    Except ConfigError Unit :=
  if (Text.trim entity.name.toList).isEmpty then .error (.emptyName kind index)
  else if seen.contains entity.name then .error (.duplicateName kind index entity.name)
  else .ok ()

theorem checkNames_cons :
    checkNames kind index seen (entity :: rest) =
      (checkName kind index seen entity >>= fun _ =>
        checkNames kind (index + 1) (entity.name :: seen) rest) := by
  rw [checkNames, checkName]
  split_ifs <;> rfl

theorem tellsFirst_checkName :
    TellsFirst (NameFault kind index seen entity) (checkName kind index seen entity) := by
  unfold checkName
  split_ifs with hEmpty hSeen
  · refine ⟨.inl ⟨List.isEmpty_iff.mp hEmpty, rfl⟩, ?_⟩
    rintro other (⟨-, rfl⟩ | ⟨-, rfl⟩)
    · exact .inl rfl
    · exact .inr (.empty kind index entity.name)
  · refine ⟨.inr ⟨List.contains_iff_mem.mp hSeen, rfl⟩, ?_⟩
    rintro other (⟨hTrimmed, rfl⟩ | ⟨-, rfl⟩)
    · exact absurd (List.isEmpty_iff.mpr hTrimmed) hEmpty
    · exact .inl rfl
  · rintro e (⟨hTrimmed, -⟩ | ⟨hBefore, -⟩)
    · exact hEmpty (List.isEmpty_iff.mpr hTrimmed)
    · exact hSeen (List.contains_iff_mem.mpr hBefore)

theorem place_of_nameFault (h : NameFault kind index seen entity e) :
    e.stage = ConfigError.stage (.emptyName kind index) ∧ e.index? = some index := by
  rcases h with ⟨-, rfl⟩ | ⟨-, rfl⟩
  · exact ⟨rfl, rfl⟩
  · cases kind <;> exact ⟨rfl, rfl⟩

theorem tellsFirst_checkNames (kind : EntityKind) (index : Nat) (seen : List String)
    (entities : List EntityConfig) :
    TellsFirst (NameFaults kind index seen entities) (checkNames kind index seen entities) := by
  induction entities generalizing index seen with
  | nil =>
    rintro e ⟨before, entity, behind, hSplit, -⟩
    simp at hSplit
  | cons entity rest ih =>
    rw [checkNames_cons]
    refine (tellsFirst_bind tellsFirst_checkName (fun _ => ih (index + 1) (entity.name :: seen))
      ?_).congr fun e => nameFaults_cons_iff.symm
    rintro e e' hFault ⟨before, _, _, -, hFault'⟩
    obtain ⟨hStage, hIndex⟩ := place_of_nameFault hFault
    obtain ⟨hStage', hIndex'⟩ := place_of_nameFault hFault'
    refine .index ?_ hIndex hIndex' (by omega)
    rw [hStage, hStage']
    cases kind <;> rfl

end

/-! ## Whole drafts -/

namespace Draft

def listed (draft : Draft) : EntityKind → List EntityConfig
  | .node => draft.nodes
  | .configuration => draft.configurations

/-- What is wrong with a draft, as the error that tells it. -/
inductive Fault (draft : Draft) : ConfigError → Prop where
  | fieldType {topic path typeName : String} {fields : SortedMap String} {error : UnknownType} :
    draft.topics.find? topic = some fields → fields.find? path = some typeName →
    FieldType.ofText typeName = .error error → Fault draft (.fieldType topic path error)
  | level : ¬IsKnownLevel draft.logging.level → Fault draft (.level none draft.logging.level)
  | moduleLevel {name level : String} : draft.logging.modules.find? name = some level →
    ¬IsKnownLevel level → Fault draft (.level (some name) level)
  | emptyName {kind : EntityKind} {before behind : List EntityConfig} {entity : EntityConfig} :
    draft.listed kind = before ++ entity :: behind → Text.trim entity.name.toList = [] →
    Fault draft (.emptyName kind before.length)
  | duplicateName {kind : EntityKind} {before behind : List EntityConfig} {entity : EntityConfig} :
    draft.listed kind = before ++ entity :: behind → entity.name ∈ before.map (·.name) →
    Fault draft (.duplicateName kind before.length entity.name)

/-- A draft without faults. -/
structure Valid (draft : Draft) : Prop where
  types : ∀ topic fields path typeName, draft.topics.find? topic = some fields →
    fields.find? path = some typeName → ∃ type : FieldType, type.IsNamedBy typeName
  level : IsKnownLevel draft.logging.level
  modules : ∀ name level, draft.logging.modules.find? name = some level → IsKnownLevel level
  named : ∀ kind, ∀ entity ∈ draft.listed kind, Text.trim entity.name.toList ≠ []
  distinct : ∀ kind, ((draft.listed kind).map (·.name)).Nodup

variable {draft : Draft}

theorem nameFaults_iff {kind : EntityKind} {entities : List EntityConfig} {e : ConfigError} :
    NameFaults kind 0 [] entities e ↔
      ∃ before entity behind, entities = before ++ entity :: behind ∧
        (Text.trim entity.name.toList = [] ∧ e = .emptyName kind before.length ∨
          entity.name ∈ before.map (·.name) ∧
            e = .duplicateName kind before.length entity.name) := by
  simp only [NameFaults, NameFault, Nat.zero_add, List.append_nil, List.mem_reverse]

theorem fault_iff {e : ConfigError} :
    draft.Fault e ↔ TypeFaults draft.topics e ∨ LevelFault none draft.logging.level e ∨
      ModuleFaults draft.logging.modules e ∨ NameFaults .node 0 [] draft.nodes e ∨
      NameFaults .configuration 0 [] draft.configurations e := by
  have hNames : ∀ kind, NameFaults kind 0 [] (draft.listed kind) e →
      NameFaults .node 0 [] draft.nodes e ∨
        NameFaults .configuration 0 [] draft.configurations e := by
    intro kind h
    cases kind with
    | node => exact .inl h
    | configuration => exact .inr h
  have hFault : ∀ kind, NameFaults kind 0 [] (draft.listed kind) e → draft.Fault e := by
    intro kind h
    obtain ⟨before, entity, behind, hSplit, ⟨hEmpty, rfl⟩ | ⟨hBefore, rfl⟩⟩ := nameFaults_iff.mp h
    · exact .emptyName hSplit hEmpty
    · exact .duplicateName hSplit hBefore
  constructor
  · intro h
    cases h with
    | fieldType hTopic hField hError =>
      exact .inl ⟨_, SortedMap.find?_eq_some_iff.mp hTopic, _,
        SortedMap.find?_eq_some_iff.mp hField, _, hError, rfl⟩
    | level hLevel => exact .inr (.inl ⟨hLevel, rfl⟩)
    | moduleLevel hModule hLevel =>
      exact .inr (.inr (.inl ⟨_, SortedMap.find?_eq_some_iff.mp hModule, hLevel, rfl⟩))
    | @emptyName kind _ _ _ hSplit hEmpty =>
      refine .inr (.inr (.inr (hNames kind (nameFaults_iff.mpr ?_))))
      exact ⟨_, _, _, hSplit, .inl ⟨hEmpty, rfl⟩⟩
    | @duplicateName kind _ _ _ hSplit hBefore =>
      refine .inr (.inr (.inr (hNames kind (nameFaults_iff.mpr ?_))))
      exact ⟨_, _, _, hSplit, .inr ⟨hBefore, rfl⟩⟩
  · rintro (⟨⟨topic, fields⟩, hTopic, ⟨path, typeName⟩, hField, error, hError, rfl⟩ |
      ⟨hLevel, rfl⟩ | ⟨⟨name, level⟩, hModule, hLevel, rfl⟩ | h | h)
    · exact .fieldType (SortedMap.find?_eq_some_iff.mpr hTopic)
        (SortedMap.find?_eq_some_iff.mpr hField) hError
    · exact .level hLevel
    · exact .moduleLevel (SortedMap.find?_eq_some_iff.mpr hModule) hLevel
    · exact hFault .node h
    · exact hFault .configuration h

theorem stage_of_typeFaults {topics : SortedMap (SortedMap String)} {e : ConfigError}
    (h : TypeFaults topics e) : e.stage = 1 := by
  obtain ⟨_, -, _, -, _, -, rfl⟩ := h
  rfl

theorem stage_of_levelFault {level : String} {e : ConfigError} (h : LevelFault none level e) :
    e.stage = 2 := by
  obtain ⟨-, rfl⟩ := h
  rfl

theorem stage_of_moduleFaults {modules : SortedMap String} {e : ConfigError}
    (h : ModuleFaults modules e) : e.stage = 3 := by
  obtain ⟨_, -, -, rfl⟩ := h
  rfl

theorem stage_of_nameFaults {kind : EntityKind} {entities : List EntityConfig} {e : ConfigError}
    (h : NameFaults kind 0 [] entities e) : e.stage = ConfigError.stage (.emptyName kind 0) := by
  obtain ⟨_, _, _, -, hFault⟩ := h
  rw [(place_of_nameFault hFault).1]
  cases kind <;> rfl

theorem tellsFirst_ofDraft (draft : Draft) : TellsFirst draft.Fault (ofDraft draft) := by
  have hConfigurations : ∀ e, NameFaults .configuration 0 [] draft.configurations e → 4 < e.stage :=
    fun e h => (stage_of_nameFaults h).symm ▸ Nat.lt_succ_self 4
  have hNodes : ∀ e, NameFaults .node 0 [] draft.nodes e ∨ _ → 3 < e.stage := fun e h =>
    h.elim (fun h => (stage_of_nameFaults h).symm ▸ Nat.lt_succ_self 3) fun h =>
      Nat.lt_of_succ_lt (hConfigurations e h)
  have hModules : ∀ e, ModuleFaults draft.logging.modules e ∨ _ → 2 < e.stage := fun e h =>
    h.elim (fun h => (stage_of_moduleFaults h).symm ▸ Nat.lt_succ_self 2) fun h =>
      Nat.lt_of_succ_lt (hNodes e h)
  have hLevels : ∀ e, LevelFault none draft.logging.level e ∨ _ → 1 < e.stage := fun e h =>
    h.elim (fun h => (stage_of_levelFault h).symm ▸ Nat.lt_succ_self 1) fun h =>
      Nat.lt_of_succ_lt (hModules e h)
  refine TellsFirst.congr ?_ fun e => fault_iff.symm
  refine tellsFirst_stages (tellsFirst_topicTable draft.topics) (fun table => ?_)
    (fun _ => stage_of_typeFaults) hLevels
  refine tellsFirst_stages (tellsFirst_checkLevel none draft.logging.level) (fun _ => ?_)
    (fun _ => stage_of_levelFault) hModules
  refine tellsFirst_stages (tellsFirst_checkModules draft.logging.modules) (fun _ => ?_)
    (fun _ => stage_of_moduleFaults) hNodes
  refine tellsFirst_stages (tellsFirst_checkNames .node 0 [] draft.nodes) (fun _ => ?_)
    (fun _ => stage_of_nameFaults) hConfigurations
  exact tellsFirst_map (tellsFirst_checkNames .configuration 0 [] draft.configurations)

/-- Names are distinct if none of them is among those before it. -/
theorem nodup_map_iff {α β : Type} {f : α → β} {items : List α} :
    (items.map f).Nodup ↔
      ∀ before a behind, items = before ++ a :: behind → f a ∉ before.map f := by
  constructor
  · rintro hNodup before a behind rfl hMem
    rw [List.map_append, List.nodup_append'] at hNodup
    exact hNodup.2.2 hMem List.mem_cons_self
  · intro h
    induction items using List.reverseRecOn with
    | nil => exact .nil
    | append_singleton items a ih =>
      rw [List.map_append, List.nodup_append']
      refine ⟨ih fun before b behind hSplit => h before b (behind ++ [a]) (by simp [hSplit]),
        List.nodup_singleton _, ?_⟩
      intro name hMem hLast
      obtain rfl := List.mem_singleton.mp hLast
      exact h items a [] rfl hMem

theorem valid_iff : draft.Valid ↔ ∀ e, ¬draft.Fault e := by
  constructor
  · rintro ⟨hTypes, hLevel, hModules, hNamed, hDistinct⟩ e hFault
    cases hFault with
    | fieldType hTopic hField hError =>
      obtain ⟨type, hType⟩ := hTypes _ _ _ _ hTopic hField
      rw [FieldType.ofText_eq_ok_iff.mpr hType] at hError
      cases hError
    | level hUnknown => exact hUnknown hLevel
    | moduleLevel hModule hUnknown => exact hUnknown (hModules _ _ hModule)
    | emptyName hSplit hEmpty =>
      exact hNamed _ _ (hSplit ▸ List.mem_append_right _ List.mem_cons_self) hEmpty
    | duplicateName hSplit hBefore =>
      exact nodup_map_iff.mp (hDistinct _) _ _ _ hSplit hBefore
  · intro h
    refine ⟨?_, ?_, ?_, ?_, ?_⟩
    · intro topic fields path typeName hTopic hField
      cases hType : FieldType.ofText typeName with
      | ok type => exact ⟨type, FieldType.ofText_eq_ok_iff.mp hType⟩
      | error error => exact absurd (.fieldType hTopic hField hType) (h _)
    · by_contra hUnknown
      exact h _ (.level hUnknown)
    · intro name level hModule
      by_contra hUnknown
      exact h _ (.moduleLevel hModule hUnknown)
    · intro kind entity hMem hEmpty
      obtain ⟨before, behind, hSplit⟩ := List.append_of_mem hMem
      exact h _ (.emptyName hSplit hEmpty)
    · intro kind
      exact nodup_map_iff.mpr fun before entity behind hSplit hBefore =>
        h _ (.duplicateName hSplit hBefore)

end Draft

/-! ## What is accepted -/

section
variable {α β ε : Type} {f : String × α → Except ε β} {entries : List (String × α)}
  {map map' : SortedMap β} {entry : String × α} {key : String}

theorem find?_of_not_mem (hNew : key ∉ entries.map (·.1))
    (h : entries.foldlM (fun map entry => do return map.insert entry.1 (← f entry)) map =
      .ok map') :
    map'.find? key = map.find? key := by
  induction entries generalizing map with
  | nil =>
    obtain rfl := Except.ok.inj h
    rfl
  | cons head entries ih =>
    obtain ⟨hHead, hRest⟩ := not_or.mp (mt List.mem_cons.mpr hNew)
    rw [List.foldlM_cons] at h
    obtain ⟨_, hValue, h⟩ := ok_of_bind h
    obtain ⟨value, -, hInsert⟩ := ok_of_bind hValue
    obtain rfl := Except.ok.inj hInsert
    rw [ih hRest h, SortedMap.find?_insert, if_neg (Ne.symm hHead)]

/-- A map that is filled with distinct keys holds the value of each. -/
theorem find?_of_mem (hDistinct : (entries.map (·.1)).Nodup)
    (h : entries.foldlM (fun map entry => do return map.insert entry.1 (← f entry)) map = .ok map')
    (hMem : entry ∈ entries) :
    ∃ value, f entry = .ok value ∧ map'.find? entry.1 = some value := by
  induction entries generalizing map with
  | nil => cases hMem
  | cons head entries ih =>
    obtain ⟨hNew, hRest⟩ := List.nodup_cons.mp hDistinct
    rw [List.foldlM_cons] at h
    obtain ⟨_, hValue, h⟩ := ok_of_bind h
    obtain ⟨value, hHead, hInsert⟩ := ok_of_bind hValue
    obtain rfl := Except.ok.inj hInsert
    rcases List.mem_cons.mp hMem with rfl | hMem
    · refine ⟨value, hHead, ?_⟩
      rw [find?_of_not_mem hNew h, SortedMap.find?_insert, if_pos rfl]
    · exact ih hRest h hMem

end

theorem find?_of_schema {topic path typeName : String} {fields : SortedMap String} {found : Schema}
    (h : schema topic fields = .ok found) (hField : fields.find? path = some typeName) :
    ∃ type, FieldType.ofText typeName = .ok type ∧ found.find? path = some type := by
  have hFold : fields.entries.foldlM (fun (schema : Schema) (field : String × String) => do
      return schema.insert field.1
        (← (FieldType.ofText field.2).mapError (ConfigError.fieldType topic field.1))) .empty =
      .ok found := h
  obtain ⟨type, hType, hFound⟩ := find?_of_mem (SortedMap.nodup_keys fields) hFold
    (SortedMap.find?_eq_some_iff.mp hField)
  exact ⟨type, ok_of_mapError hType, hFound⟩

theorem find?_of_topicTable {topic : String} {topics : SortedMap (SortedMap String)}
    {fields : SortedMap String} {table : TopicTable} (h : topicTable topics = .ok table)
    (hTopic : topics.find? topic = some fields) :
    ∃ found, schema topic fields = .ok found ∧ table.find? topic = some found := by
  have hFold : topics.entries.foldlM (fun (table : TopicTable) topic => do
      return table.insert topic.1 (← schema topic.1 topic.2)) .empty = .ok table := h
  exact find?_of_mem (SortedMap.nodup_keys topics) hFold (SortedMap.find?_eq_some_iff.mp hTopic)

/-- What a configuration has from the draft it comes from. -/
structure Draft.IsKept (draft : Draft) (config : Config) : Prop where
  types : ∀ topic fields path typeName, draft.topics.find? topic = some fields →
    fields.find? path = some typeName →
    ∃ type : FieldType, type.IsNamedBy typeName ∧
      config.topics.resolver.fieldType? topic path = some type
  entities : config.entities =
    draft.nodes.map (fun e => .ofTexts .node e.name e.properties e.assumptions) ++
      draft.configurations.map fun e => .ofTexts .configuration e.name e.properties e.assumptions

variable {draft : Draft}

theorem parts_of_ofDraft {config : Config} (h : ofDraft draft = .ok config) :
    topicTable draft.topics = .ok config.topics ∧ config.logging = draft.logging ∧
      config.nodes = draft.nodes ∧ config.configurations = draft.configurations := by
  obtain ⟨table, hTable, h⟩ := ok_of_bind h
  obtain ⟨_, -, h⟩ := ok_of_bind h
  obtain ⟨_, -, h⟩ := ok_of_bind h
  obtain ⟨_, -, h⟩ := ok_of_bind h
  obtain ⟨_, -, h⟩ := ok_of_bind h
  obtain rfl := Except.ok.inj h
  exact ⟨hTable, rfl, rfl, rfl⟩

theorem isKept_of_ofDraft {config : Config} (h : ofDraft draft = .ok config) :
    draft.IsKept config := by
  obtain ⟨hTable, -, hNodes, hConfigurations⟩ := parts_of_ofDraft h
  constructor
  · intro topic fields path typeName hTopic hField
    obtain ⟨found, hSchema, hFound⟩ := find?_of_topicTable hTable hTopic
    obtain ⟨type, hType, hPath⟩ := find?_of_schema hSchema hField
    refine ⟨type, FieldType.ofText_eq_ok_iff.mp hType, ?_⟩
    show (config.topics.find? topic).bind (Schema.field? · path) = some type
    rw [hFound, Option.bind_some, Schema.field?_of_declared hPath]
  · rw [entities, hNodes, hConfigurations]

theorem ofDraft_eq_ok_iff : (∃ config, ofDraft draft = .ok config) ↔ draft.Valid := by
  have hFirst := Draft.tellsFirst_ofDraft draft
  rw [Draft.valid_iff]
  cases hRun : ofDraft draft with
  | ok config =>
    rw [hRun] at hFirst
    exact iff_of_true ⟨config, rfl⟩ hFirst
  | error e =>
    rw [hRun] at hFirst
    exact iff_of_false nofun fun hNone => hNone e hFirst.1

theorem ofDraft_eq_error_iff {e : ConfigError} :
    ofDraft draft = .error e ↔
      draft.Fault e ∧ ∀ other, draft.Fault other → other = e ∨ e.Precedes other := by
  have hFirst := Draft.tellsFirst_ofDraft draft
  cases hRun : ofDraft draft with
  | ok config =>
    rw [hRun] at hFirst
    exact iff_of_false nofun fun hFault => hFirst e hFault.1
  | error found =>
    rw [hRun] at hFirst
    rw [Except.error.injEq]
    constructor
    · rintro rfl
      exact hFirst
    · rintro ⟨hFault, hBefore⟩
      rcases hFirst.2 e hFault with rfl | hLater
      · rfl
      · rcases hBefore found hFirst.1 with rfl | hEarlier
        · rfl
        · exact absurd hEarlier hLater.asymm

/-- Blanks in the name of a type and capitals in that of a level do no harm. -/
def walkerText : String :=
  "[logging]\nlevel = 'Info'\n[topics.walker]\nlegs = ' message [] '\n" ++
    "[[node]]\nname = 'gait'\n[[configuration]]\nname = 'gait'"

/-- The level of a module comes before a name that is there twice. -/
def loudText : String :=
  "[[node]]\nname = 'gait'\n[[node]]\nname = 'gait'\n[logging.modules]\ntf = 'loud'"

end Config
end TopicSpec
