import TopicSpec.Config.Basic

/-! # The command line

The commands of the program and the arguments that ask for them. -/

namespace TopicSpec
set_option autoImplicit false

/-- A command with its configuration, which is named by a path until it is read. -/
inductive Command (α : Type) where
  /-- Reads one text and prints what was read. -/
  | parse (form : Form) (config : Option α) (text : String)
  /-- Reads every text of a configuration. -/
  | check (config : α)

namespace Command

def config? {α : Type} : Command α → Option α
  | parse _ config _ => config
  | check config => some config

def map {α β : Type} (f : α → β) : Command α → Command β
  | parse form config text => parse form (config.map f) text
  | check config => check (f config)

def load {m : Type → Type} [Monad m] {α β : Type} (f : α → m β) : Command α → m (Command β)
  | parse form (some config) text => do return parse form (some (← f config)) text
  | parse form none text => return parse form none text
  | check config => do return check (← f config)

end Command

inductive Request where
  | run (command : Command String)
  | help

namespace CommandLine

structure Given where
  forms : List Form
  config : Option String
  texts : List String

def Given.nothing : Given := ⟨[], none, []⟩

inductive Argument where
  | endOfOptions
  | long (name : String) (value : Option String)
  | short (letters : List Char)
  | plain (text : String)

def splitValue (text : List Char) : List Char × Option (List Char) :=
  match text.dropWhile (· != '=') with
  | [] => (text, none)
  | _ :: value => (text.takeWhile (· != '='), some value)

def Argument.ofText (text : String) : Argument :=
  match text.toList with
  | ['-', '-'] => endOfOptions
  | '-' :: '-' :: rest =>
    let (name, value) := splitValue rest
    long (String.ofList name) (value.map String.ofList)
  | '-' :: c :: rest => short (c :: rest)
  | _ => plain text

/-- Takes the value of the option that names a configuration, which is given once. -/
def Given.withConfig (given : Given) (value : String) : Option Given :=
  if given.config.isSome || value = "" then none else some { given with config := some value }

def Given.withText (given : Given) (limit : Nat) (text : String) : Option Given :=
  if given.texts.length < limit then some { given with texts := given.texts ++ [text] } else none

def Given.withForm (given : Given) (form : Form) : Option Given :=
  if given.forms.contains form then none else some { given with forms := given.forms ++ [form] }

def formOfFlag? (name : String) : Option Form :=
  [Form.property, .assumption, .predicate].find? (·.name == name)

/-- Reads the arguments of a command with at most `limit` texts; `flags` tells whether it has
forms. Nothing is answered if they are not understood, and a plea for help is `none`. -/
def readArguments (flags : Bool) (limit : Nat) (given : Given) :
    List String → Option (Option Given)
  | [] => some (some given)
  | arg :: rest =>
    match Argument.ofText arg with
    | .endOfOptions => do return some (← rest.foldlM (fun given text => given.withText limit text) given)
    | .plain text => do readArguments flags limit (← given.withText limit text) rest
    | .long "help" none => some none
    | .short ('h' :: _) => some none
    | .long "config" (some value) => do
      readArguments flags limit (← given.withConfig value) rest
    | .long "config" none | .short ['c'] =>
      match rest with
      | value :: rest =>
        match Argument.ofText value with
        | .plain value => do readArguments flags limit (← given.withConfig value) rest
        | _ => none
      | [] => none
    | .short ('c' :: value) =>
      let value :=
        match value with
        | '=' :: value => value
        | _ => value
      do readArguments flags limit (← given.withConfig (String.ofList value)) rest
    | .long name none => do
      guard flags
      readArguments flags limit (← given.withForm (← formOfFlag? name)) rest
    | _ => none

/-- The command that the arguments of `parse` ask for: one text, in at most one form. -/
def parseCommand (given : Given) : Option (Command String) :=
  match given.forms, given.texts with
  | [], [text] => some (.parse .property given.config text)
  | [form], [text] => some (.parse form given.config text)
  | _, _ => none

def checkCommand (given : Given) : Option (Command String) := given.config.map .check

def requestOf (make : Given → Option (Command String)) : Option Given → Option Request
  | some given => (make given).map .run
  | none => some .help

def helpTopics : List (List String) := [[], ["parse"], ["check"], ["help"]]

def request? : List String → Option Request
  | "parse" :: rest => readArguments true 1 .nothing rest >>= requestOf parseCommand
  | "check" :: rest => readArguments false 0 .nothing rest >>= requestOf checkCommand
  | "help" :: topics => if topics ∈ helpTopics then some .help else none
  | option :: _ =>
    match Argument.ofText option with
    | .long "help" none | .short ('h' :: _) => some .help
    | _ => none
  | [] => none

def usage : String :=
  "Usage:\n" ++
    "  hplc parse [--property | --assumption | --predicate] [-c CONFIG] TEXT\n" ++
    "  hplc check -c CONFIG\n"

end CommandLine
end TopicSpec
