import Mathlib.Data.List.Nodup
import TopicSpec.Session
import TopicSpec.Proofs.Batch.Listing
import TopicSpec.Proofs.Config.Validation

/-! # Checking a configuration

The check of a configuration tells of its texts what each of them is read as on its own. -/

namespace TopicSpec
set_option autoImplicit false

/-! ## All entities -/

theorem findSome?_complaint {policy : Policy} {resolver : Option Resolver} {kind : EntityKind}
    {name : String} {listings : List Listing}
    (h : ∀ l ∈ listings, l.entityKind = kind ∧ l.entityName = name) :
    (listings.findSome? fun l => (l.fatal? policy resolver).map l.complaint) =
      (listings.findSome? (·.fatal? policy resolver)).map fun e =>
        s!"Error: {kind.name} '{name}': {e.message}" := by
  induction listings with
  | nil => rfl
  | cons l listings ih =>
    obtain ⟨⟨hKind, hName⟩, hRest⟩ := List.forall_mem_cons.mp h
    simp only [List.findSome?_cons]
    cases l.fatal? policy resolver with
    | some e => simp only [Option.map_some, Listing.complaint, hKind, hName]
    | none => exact ih hRest

/-- Entities that run one after the other fail with the first error that no run can report, and it
is told by the entity it is in. -/
theorem Command.runAll_entries (policy : Policy) (resolver : Option Resolver) (before : Report)
    (log : List LogEntry) (entries : List (EntityKind × EntityConfig)) :
    let listings := entries.flatMap fun (kind, entity) => entity.listings kind
    ∃ log', Command.runAll policy resolver before log
        (entries.map fun (kind, entity) => Batch.entityOf kind entity) =
      match listings.findSome? fun l => (l.fatal? policy resolver).map l.complaint with
      | some complaint => .error (.failure complaint log')
      | none => .ok (before.merge (Listing.report resolver listings), log') := by
  induction entries generalizing before log with
  | nil => exact ⟨log, by simp [runAll, Listing.report, Report.merge]⟩
  | cons entry entries ih =>
    obtain ⟨kind, entity⟩ := entry
    simp only [List.map_cons, List.flatMap_cons, List.findSome?_append,
      findSome?_complaint fun l => Listing.entity_of_mem (l := l), runAll, Batch.outcome_run,
      Listing.report_append, ← Batch.merge_assoc]
    cases (entity.listings kind).findSome? (·.fatal? policy resolver) with
    | some e => exact ⟨_, rfl⟩
    | none => exact ih _ _

namespace Command

theorem runAll_entities (config : Config) :
    ∃ log, runAll config.policy (some config.topics.resolver) .empty [] config.entities =
      match config.listings.findSome? fun l =>
        (l.fatal? config.policy (some config.topics.resolver)).map l.complaint with
      | some complaint => .error (.failure complaint log)
      | none => .ok (Listing.report (some config.topics.resolver) config.listings, log) := by
  obtain ⟨log, hRun⟩ := runAll_entries config.policy (some config.topics.resolver) .empty []
    config.entries
  have hEntities : config.entities =
      config.entries.map fun (kind, entity) => Batch.entityOf kind entity := by
    simp only [Config.entities, Config.entries, List.map_append, List.map_map]
    rfl
  rw [← hEntities] at hRun
  simp only [Report.merge, Report.empty, Nat.zero_add, List.nil_append] at hRun
  exact ⟨log, hRun⟩

theorem runCheck_of_reported {config : Config}
    (h : ∀ l ∈ config.listings, l.fatal? config.policy (some config.topics.resolver) = none) :
    let report := Listing.report (some config.topics.resolver) config.listings
    (runCheck config).exit = (if report.diagnostics.length = 0 then 0 else 1) ∧
      (runCheck config).output =
        s!"{report.parsed} parsed, {report.diagnostics.length} failed\n" ∧
      (runCheck config).complaints =
        String.join (report.diagnostics.map fun d => d.render ++ "\n") := by
  have hNone : (config.listings.findSome? fun l =>
      (l.fatal? config.policy (some config.topics.resolver)).map l.complaint) = none :=
    List.findSome?_eq_none_iff.mpr fun l hMem => by rw [h l hMem]; rfl
  obtain ⟨log, hRun⟩ := runAll_entities config
  rw [hNone] at hRun
  simp only [runCheck, hRun, Report.isClean, List.isEmpty_iff, List.length_eq_zero_iff, true_and]

theorem runCheck_of_malformed {config : Config} {l : Listing} (hPolicy : config.policy = .failFast)
    (h : config.listings.find? (·.isMalformed (some config.topics.resolver)) = some l) :
    ∃ e, l.refusal? (some config.topics.resolver) = some (.malformed e) ∧
      (runCheck config).exit = 1 ∧ (runCheck config).output = "" ∧
      (runCheck config).complaints = l.complaint (.malformed e) ++ "\n" := by
  obtain ⟨hMalformed, before, after, hSplit, hBefore⟩ := List.find?_eq_some_iff_append.mp h
  obtain ⟨e, hRefusal, hFatal⟩ := Listing.fatal?_failFast_of_malformed hMalformed
  have hNone : (before.findSome? fun l =>
      (l.fatal? config.policy (some config.topics.resolver)).map l.complaint) = none := by
    refine List.findSome?_eq_none_iff.mpr fun l hMem => ?_
    rw [Listing.fatal?_of_not_malformed (by simpa using hBefore l hMem)]
    rfl
  obtain ⟨log, hRun⟩ := runAll_entities config
  rw [hSplit, List.findSome?_append, hNone, Option.none_or, List.findSome?_cons, hPolicy, hFatal]
    at hRun
  refine ⟨e, hRefusal, ?_⟩
  simp only [runCheck, hPolicy, hRun, Option.map_some, Transcript.failure, true_and]

end Command

/-! ## Names -/

namespace Config

theorem nodup_names {text : String} {config : Config} (h : ofText text = .ok config) :
    (config.nodes.map (·.name)).Nodup ∧ (config.configurations.map (·.name)).Nodup := by
  unfold ofText at h
  split at h
  case h_1 draft _ =>
    have hValid : draft.Valid := ofDraft_eq_ok_iff.mp ⟨config, h⟩
    obtain ⟨-, -, hNodes, hConfigurations⟩ := parts_of_ofDraft h
    rw [hNodes, hConfigurations]
    exact ⟨hValid.distinct .node, hValid.distinct .configuration⟩
  case h_2 => cases h

end Config

/-! ## Locations -/

theorem EntityConfig.nodup_locations (kind : EntityKind) (entity : EntityConfig) :
    ((entity.listings kind).map Listing.location).Nodup := by
  have hListed (item : ItemKind) (texts : List String) :
      (entity.listed kind item 0 texts).map Listing.location =
        (List.range' 0 texts.length).map fun i => (kind, entity.name, item, i) := by
    rw [← List.zipIdx_map_snd 0 texts, List.map_map, listed, List.map_map]
    rfl
  rw [listings, List.map_append, hListed, hListed, List.nodup_append']
  refine ⟨?_, ?_, ?_⟩
  · exact .map (fun i j h => by simpa using h) List.nodup_range'
  · exact .map (fun i j h => by simpa using h) List.nodup_range'
  · intro location hProperty hAssumption
    obtain ⟨i, -, rfl⟩ := List.mem_map.mp hProperty
    obtain ⟨j, -, hEq⟩ := List.mem_map.mp hAssumption
    cases hEq

theorem Config.nodup_entries {text : String} {config : Config} (h : ofText text = .ok config) :
    config.entries.Pairwise fun a b => (a.1, a.2.name) ≠ (b.1, b.2.name) := by
  obtain ⟨hNodes, hConfigurations⟩ := nodup_names h
  rw [List.Nodup, List.pairwise_map] at hNodes hConfigurations
  rw [entries, List.pairwise_append, List.pairwise_map, List.pairwise_map]
  refine ⟨hNodes.imp fun h => by simpa using h, hConfigurations.imp fun h => by simpa using h, ?_⟩
  intro a hNode b hConfiguration
  obtain ⟨_, -, rfl⟩ := List.mem_map.mp hNode
  obtain ⟨_, -, rfl⟩ := List.mem_map.mp hConfiguration
  simp

theorem Config.nodup_locations {text : String} {config : Config} (h : ofText text = .ok config) :
    (config.listings.map Listing.location).Nodup := by
  rw [listings, List.map_flatMap, List.nodup_flatMap]
  refine ⟨fun entry _ => entry.2.nodup_locations entry.1, (nodup_entries h).imp ?_⟩
  intro a b hDiffer location hLeft hRight
  obtain ⟨l, hMem, rfl⟩ := List.mem_map.mp hLeft
  obtain ⟨l', hMem', hEq⟩ := List.mem_map.mp hRight
  obtain ⟨hKind, hName⟩ := Listing.entity_of_mem hMem
  obtain ⟨hKind', hName'⟩ := Listing.entity_of_mem hMem'
  simp only [Listing.location, Prod.mk.injEq] at hEq
  exact hDiffer (by rw [← hKind, ← hName, ← hKind', ← hName', hEq.1, hEq.2.1])

/-! ## The whole session -/

namespace Session

variable {files : FileTree} {requested : Option String} {path text : String} {place : Location}
  {config : Config} {filter : Log.Filter} {notices : List String}
  {logFile : Option (Option Location)}

theorem run_check (hPlace : files.locate path = .ok place) (hRead : files.read place = .ok text)
    (hConfig : Config.ofText text = .ok config)
    (hFilter : Log.sessionFilter requested config.logging = .ok (filter, notices))
    (hLogFile : config.logging.file.mapM (logPlace files place.dropLast) = .ok logFile) :
    let ending := run files requested (.check path)
    let transcript := Command.runCheck config
    ending.exit = transcript.exit ∧ ending.output = transcript.output ∧
      ending.errors = String.join notices ++
        Log.lines filter config.logging.format true transcript.log ++ transcript.complaints := by
  have hLoad : loadConfig files path = .ok (config, place.dropLast) := by
    simp only [loadConfig, hPlace, mapError_ok, ok_bind, hRead, hConfig, pure, Except.pure]
  have hCommand : (Command.check path).load (loadConfig files) =
      .ok (.check (config, place.dropLast)) := by
    simp only [Command.load, hLoad]
    rfl
  simp only [run, hCommand, Command.config?, Option.map_some, Option.getD_some, Command.map,
    runLoaded, Command.logging, hFilter, hLogFile, Command.run, and_self]

/-- The check of a configuration agrees with reading each of its texts alone. If no text ends the
run, it counts the texts that are accepted and those that are rejected, prints one diagnostic for
each of the latter, no two of them about the same place, and is a success if there are none. If a
text is malformed and the policy does not tolerate this, nothing is counted, and the complaint is
that of the first malformed text. -/
theorem check_agrees_with_reading_alone (hPlace : files.locate path = .ok place)
    (hRead : files.read place = .ok text) (hConfig : Config.ofText text = .ok config)
    (hFilter : Log.sessionFilter requested config.logging = .ok (filter, notices))
    (hLogFile : config.logging.file.mapM (logPlace files place.dropLast) = .ok logFile) :
    let resolver := some config.topics.resolver
    let ending := run files requested (.check path)
    let logged := String.join notices ++
      Log.lines filter config.logging.format true (Command.runCheck config).log
    let accepted := config.listings.countP fun l => (l.refusal? resolver).isNone
    let rejected := config.listings.countP fun l => (l.refusal? resolver).isSome
    let diagnostics := config.listings.filterMap fun l => (l.refusal? resolver).map l.diagnose
    ((config.policy = .report ∨ ∀ l ∈ config.listings, l.isMalformed resolver = false) →
      ending.output = s!"{accepted} parsed, {rejected} failed\n" ∧
      accepted + rejected = config.listings.length ∧
      ending.errors = logged ++ String.join (diagnostics.map fun d => d.render ++ "\n") ∧
      diagnostics.length = rejected ∧ (diagnostics.map Diagnostic.location).Nodup ∧
      ending.exit = if rejected = 0 then 0 else 1) ∧
    (config.policy = .failFast → (∃ l ∈ config.listings, l.isMalformed resolver = true) →
      ∃ l e, config.listings.find? (·.isMalformed resolver) = some l ∧
        l.refusal? resolver = some (.malformed e) ∧ ending.output = "" ∧ ending.exit = 1 ∧
        ending.errors = logged ++ l.complaint (.malformed e) ++ "\n") := by
  intro resolver ending logged accepted rejected diagnostics
  obtain ⟨hExit, hOutput, hErrors⟩ := run_check hPlace hRead hConfig hFilter hLogFile
  constructor
  · intro hPolicy
    have hReported : ∀ l ∈ config.listings, l.fatal? config.policy resolver = none := by
      rcases hPolicy with hPolicy | hPolicy
      · intro l _
        rw [hPolicy]
        exact l.fatal?_report
      · exact fun l hMem => Listing.fatal?_of_not_malformed (hPolicy l hMem)
    obtain ⟨hExit', hOutput', hErrors'⟩ := Command.runCheck_of_reported hReported
    have hRejected : diagnostics.length = rejected := Listing.length_diagnostics resolver _
    have hLocations : diagnostics.map Diagnostic.location = _ :=
      Listing.map_location_diagnostics resolver config.listings
    refine ⟨?_, ?_, ?_, hRejected, ?_, ?_⟩
    · rw [hOutput, hOutput', ← hRejected]
      rfl
    · rw [← hRejected]
      exact Listing.parsed_add_failed resolver config.listings
    · rw [hErrors, hErrors']
      rfl
    · rw [hLocations]
      exact (Config.nodup_locations hConfig).sublist (List.filter_sublist.map _)
    · rw [hExit, hExit', ← hRejected]
      rfl
  · rintro hPolicy ⟨l, hMem, hMalformed⟩
    obtain ⟨first, hFirst⟩ := Option.isSome_iff_exists.mp
      (List.find?_isSome.mpr ⟨l, hMem, hMalformed⟩)
    obtain ⟨e, hRefusal, hExit', hOutput', hErrors'⟩ :=
      Command.runCheck_of_malformed hPolicy hFirst
    refine ⟨first, e, hFirst, hRefusal, hOutput.trans hOutput', hExit.trans hExit', ?_⟩
    rw [hErrors, hErrors', ← String.append_assoc]

/-- The configuration of one node with two assumptions, behind the given front. -/
def oneNode (front : String) : FileTree :=
  ⟨[(["c"], front ++ "node=[\x7bname=\"m\",assumptions=[\"a\x7bb\x7d\",\"a\"]\x7d]")]⟩

def lenientFront : String := "parser.syntax_errors=\"report\"\n"

theorem locate_oneNode (front : String) : (oneNode front).locate "c" = .ok ["c"] := by
  have hSplit : FileTree.splitPath "c" = ["c"] := by
    rw [FileTree.splitPath, String.splitOn, if_neg (by decide), String.splitOnAux,
      if_neg (by decide +kernel), if_neg (by decide +kernel), String.splitOnAux]
    decide +kernel
  rw [FileTree.locate, hSplit]
  rfl

/-- The configuration can be read, has no log file, and has the given property. -/
def loads (files : FileTree) (holds : Config → Bool) : Bool :=
  match files.read ["c"] with
  | .error _ => false
  | .ok text =>
    match Config.ofText text with
    | .error _ => false
    | .ok config => config.logging.file.isNone && holds config

theorem exists_of_loads {files : FileTree} {holds : Config → Bool} (h : loads files holds = true) :
    ∃ text config, files.read ["c"] = .ok text ∧ Config.ofText text = .ok config ∧
      config.logging.file.mapM (logPlace files []) = .ok none ∧ holds config = true := by
  unfold loads at h
  split at h
  · cases h
  next text hRead =>
  split at h
  · cases h
  next config hConfig =>
  rw [Bool.and_eq_true, Option.isNone_iff_eq_none] at h
  exact ⟨text, config, hRead, hConfig, by rw [h.1]; rfl, h.2⟩

theorem sessionFilter_off (logging : LoggingConfig) : Log.sessionFilter (some "off") logging =
    .ok ((Log.Filter.ofTextLossy "off").1, (Log.Filter.ofTextLossy "off").2) := rfl

theorem check_of_oneNode :
    (run (oneNode lenientFront) (some "off") (.check "c")).output = "1 parsed, 1 failed\n" ∧
      (run (oneNode lenientFront) (some "off") (.check "c")).exit = 1 ∧
      (run (oneNode "") (some "off") (.check "c")).output = "" ∧
      (run (oneNode "") (some "off") (.check "c")).exit = 1 := by
  have hReport : loads (oneNode lenientFront) (fun config =>
      config.policy = .report &&
        config.listings.countP (fun l => (l.refusal? (some config.topics.resolver)).isNone) == 1 &&
        config.listings.countP (fun l => (l.refusal? (some config.topics.resolver)).isSome) == 1) =
      true := by decide +kernel
  have hFailFast : loads (oneNode "") (fun config =>
      config.policy = .failFast &&
        config.listings.any (·.isMalformed (some config.topics.resolver))) = true := by
    decide +kernel
  obtain ⟨text, config, hRead, hConfig, hFile, hHolds⟩ := exists_of_loads hReport
  obtain ⟨text', config', hRead', hConfig', hFile', hHolds'⟩ := exists_of_loads hFailFast
  simp only [Bool.and_eq_true, decide_eq_true_eq, beq_iff_eq, List.any_eq_true] at hHolds hHolds'
  obtain ⟨hOutput, -, -, -, -, hExit⟩ := (check_agrees_with_reading_alone
    (locate_oneNode lenientFront) hRead hConfig (sessionFilter_off _) hFile).1 (.inl hHolds.1.1)
  obtain ⟨l, e, -, -, hOutput', hExit', -⟩ := (check_agrees_with_reading_alone
    (locate_oneNode "") hRead' hConfig' (sessionFilter_off _) hFile').2 hHolds'.1 hHolds'.2
  rw [hHolds.1.2, hHolds.2] at hOutput
  rw [hHolds.2] at hExit
  exact ⟨hOutput, hExit, hOutput', hExit'⟩

end Session
end TopicSpec
