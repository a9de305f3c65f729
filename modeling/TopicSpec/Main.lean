import TopicSpec.Session

/-! # The program

Runs the command that the arguments ask for, with the files and the environment of the system. -/

namespace TopicSpec.Program
set_option autoImplicit false

/-- The reason of a failure, in the words of the system where it is a known one. -/
def reason : IO.Error → String
  | e@(.noFileOrDirectory _ code _) | e@(.inappropriateType _ code _)
  | e@(.alreadyExists _ code _) | e@(.invalidArgument _ code _) =>
    match PathError.ofCode? code.toNat with
    | some known => known.message
    | none => toString e
  | e => toString e

def attempt {α : Type} (error : String → SessionError) (action : IO α) :
    ExceptT SessionError IO α := do
  match ← action.toBaseIO with
  | .ok value => return value
  | .error e => throw (error (reason e))

/-- The configuration at a path, and the directory it stands in. -/
def loadConfig (path : String) : ExceptT SessionError IO (Config × String) := do
  let place ← attempt (.config path) (IO.FS.realPath path)
  let text ← attempt (.unreadable place.toString) (IO.FS.readFile place)
  let config ← ExceptT.mk (pure ((Config.ofText text).mapError .document))
  return (config, (place.parent.getD place).toString)

/-- The path of a log file, whose directory is made if it is missing. -/
def logPath (directory path : String) : ExceptT SessionError IO String := do
  let place ← ExceptT.mk (pure (Log.Destination.ofText path))
  let start := if place.absolute then "" else directory
  let folder := "/".intercalate (start :: place.steps) ++ "/"
  attempt .logDirectory (IO.FS.createDirAll folder)
  return folder ++ place.name

def append (text path : String) : IO Unit :=
  IO.FS.withFile path .append fun handle => handle.putStr text

def run (command : Command String) : ExceptT SessionError IO UInt32 := do
  let command ← command.load loadConfig
  let directory := (command.config?.map (·.2)).getD "."
  let command := command.map (·.1)
  let logging := command.logging
  let requested ← IO.getEnv "RUST_LOG"
  let (filter, notices) ← ExceptT.mk (pure (Log.sessionFilter requested logging))
  notices.forM fun notice => IO.eprint notice
  let file ← logging.file.mapM (logPath directory)
  let transcript := command.run
  let lines (colours : Bool) := Log.lines filter logging.format colours transcript.log
  IO.eprint (lines true)
  file.forM fun path => append (lines false) path
  IO.eprint transcript.complaints
  IO.print transcript.output
  return transcript.exit.toUInt32

end TopicSpec.Program

def main (args : List String) : IO UInt32 := do
  match TopicSpec.CommandLine.request? args with
  | none => do
    IO.eprint TopicSpec.CommandLine.usage
    return 2
  | some .help => do
    IO.print TopicSpec.CommandLine.usage
    return 0
  | some (.run command) =>
    match ← (TopicSpec.Program.run command).run with
    | .ok answer => return answer
    | .error e => do
      IO.eprintln e.message
      return 1
