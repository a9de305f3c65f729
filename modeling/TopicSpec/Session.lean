import TopicSpec.CommandLine
import TopicSpec.FileTree
import TopicSpec.Log.Filter

/-! # Sessions

What a command prints, logs and answers, first apart from the files and then within a tree of
files. -/

namespace TopicSpec
set_option autoImplicit false

/-- What a command did: its answer to the system, what it printed, its complaints, and what was
logged before them. -/
structure Transcript where
  exit : Nat
  output : String
  complaints : String
  log : List LogEntry

namespace Transcript

def success (output : String) (log : List LogEntry) : Transcript := ⟨0, output, "", log⟩

def failure (complaint : String) (log : List LogEntry) : Transcript :=
  ⟨1, "", complaint ++ "\n", log⟩

end Transcript

namespace Command

def parsedText (resolver : Option Resolver) (form : Form) (text : String) :
    Except SpecError String :=
  match form with
  | .property => Property.render <$> Property.ofText resolver text
  | .assumption => Assumption.render <$> Assumption.ofText resolver text
  | .predicate => Expr.render <$> Expr.ofText resolver text

def runParse (resolver : Option Resolver) (form : Form) (text : String) : Transcript :=
  let log := [LogEntry.reading form text]
  match parsedText resolver form text with
  | .ok shown => .success (shown ++ "\n") log
  | .error e => .failure e.message log

/-- Runs entities one after the other; the first run that breaks off ends it. -/
def runAll (policy : Policy) (resolver : Option Resolver) (report : Report)
    (log : List LogEntry) : List Entity → Except Transcript (Report × List LogEntry)
  | [] => .ok (report, log)
  | entity :: rest =>
    let run := Batch.run policy resolver entity
    match run.outcome with
    | .ok more => runAll policy resolver (report.merge more) (log ++ run.log) rest
    | .error e =>
      .error (.failure s!"Error: {entity.kind.name} '{entity.name}': {e.message}" (log ++ run.log))

def runCheck (config : Config) : Transcript :=
  match runAll config.policy (some config.topics.resolver) .empty [] config.entities with
  | .error transcript => transcript
  | .ok (report, log) =>
    { exit := if report.isClean then 0 else 1
      output := s!"{report.parsed} parsed, {report.diagnostics.length} failed\n"
      complaints := String.join (report.diagnostics.map fun d => d.render ++ "\n")
      log := log }

def run : Command Config → Transcript
  | parse form config text => runParse (config.map (·.topics.resolver)) form text
  | check config => runCheck config

def logging (command : Command Config) : LoggingConfig :=
  match command.config? with
  | some config => config.logging
  | none => .standard

end Command

inductive SessionError where
  | config (path reason : String)
  | unreadable (path reason : String)
  | document (error : ConfigError)
  | filter (directives : String) (error : Log.DirectiveError)
  | logFileNoParent
  | logFileNoName
  | logDirectory (reason : String)

def SessionError.message : SessionError → String
  | config path reason => s!"Error: config path '{path}': {reason}"
  | unreadable path reason => s!"Error: failed to read {path}: {reason}"
  | document error => s!"Error: {error.message}"
  | filter directives error => s!"Error: invalid log filter '{directives}': {error.message}"
  | logFileNoParent => "Error: log file path has no parent directory"
  | logFileNoName => "Error: log file path has no file name"
  | logDirectory reason => s!"Error: {reason}"

/-! ## Logs -/

namespace Log

/-- The filter that the environment asks for, or else that of the configuration, with notices
about what was ignored. -/
def sessionFilter (requested : Option String) (logging : LoggingConfig) :
    Except SessionError (Filter × List String) :=
  match requested with
  | some text => .ok (Filter.ofTextLossy text)
  | none =>
    match Filter.ofText logging.directives with
    | .ok filter => .ok (filter, [])
    | .error e => .error (.filter logging.directives e)

def lines (filter : Filter) (format : LogFormat) (colours : Bool) (log : List LogEntry) :
    String :=
  let records := (log.map ofEntry).filter filter.passes
  String.join <| records.map fun record =>
    match format with
    | .plain => record.plain colours
    | .json => record.json

/-- Where a log file is: the steps to its directory and its name. -/
structure Destination where
  absolute : Bool
  steps : List String
  name : String

def Destination.ofText (path : String) : Except SessionError Destination :=
  let absolute := path.toList.head? = some '/'
  let steps := (FileTree.splitPath path).filter fun step => step != "" && step != "."
  match steps.getLast? with
  | some ".." => .error .logFileNoName
  | some name =>
    if steps.dropLast.any (·.contains (Char.ofNat 0)) then
      .error (.logDirectory "file name contained an unexpected NUL byte")
    else .ok ⟨absolute, steps.dropLast, name⟩
  | none => .error (if absolute then .logFileNoParent else .logFileNoName)

end Log

/-! ## Within a tree of files -/

structure Ending where
  exit : Nat
  output : String
  errors : String
  files : FileTree

namespace Session

/-- The configuration at a path, and the directory it stands in. -/
def loadConfig (files : FileTree) (path : String) : Except SessionError (Config × Location) := do
  let place ← (files.locate path).mapError fun e => .config path e.message
  let text ← (files.read place).mapError fun e => .unreadable path e.message
  let config ← (Config.ofText text).mapError .document
  return (config, place.dropLast)

/-- The place of a log file, if it is within the tree. -/
def logPlace (files : FileTree) (directory : Location) (path : String) :
    Except SessionError (Option Location) := do
  let path ← Log.Destination.ofText path
  if path.absolute then return none
  let place ← (files.makeDirectories directory path.steps).mapError fun e => .logDirectory e.message
  return place.map (· ++ [path.name])

def abort (files : FileTree) (notices : List String) (error : SessionError) : Ending :=
  ⟨1, "", String.join notices ++ error.message ++ "\n", files⟩

/-- Runs a command whose configuration stands in the given directory, with its log on the
terminal and in the log file. -/
def runLoaded (files : FileTree) (requested : Option String) (directory : Location)
    (command : Command Config) : Ending :=
  let logging := command.logging
  match Log.sessionFilter requested logging with
  | .error e => abort files [] e
  | .ok (filter, notices) =>
    match logging.file.mapM (logPlace files directory) with
    | .error e => abort files notices e
    | .ok place =>
      let transcript := command.run
      let lines (colours : Bool) := Log.lines filter logging.format colours transcript.log
      { exit := transcript.exit
        output := transcript.output
        errors := String.join notices ++ lines true ++ transcript.complaints
        files :=
          match place with
          | some (some place) => files.append place (lines false)
          | _ => files }

def run (files : FileTree) (requested : Option String) (command : Command String) : Ending :=
  match command.load (loadConfig files) with
  | .error e => abort files [] e
  | .ok command =>
    let directory := (command.config?.map (·.2)).getD []
    runLoaded files requested directory (command.map (·.1))

end Session
end TopicSpec
