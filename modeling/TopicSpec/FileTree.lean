import TopicSpec.SortedMap

/-! # Trees of files

The files below a directory, by the names on the way to them. Directories are those names that
lead to files. Paths are looked up step by step, as a file system does it. -/

namespace TopicSpec
set_option autoImplicit false

/-- Why a path leads nowhere. -/
inductive PathError where
  | missing
  | notDirectory
  | occupied
  | isDirectory
  | tooLong
  deriving DecidableEq

namespace PathError

def all : List PathError := [missing, notDirectory, occupied, isDirectory, tooLong]

def code : PathError → Nat
  | missing => 2
  | notDirectory => 20
  | occupied => 17
  | isDirectory => 21
  | tooLong => 36

def reason : PathError → String
  | missing => "No such file or directory"
  | notDirectory => "Not a directory"
  | occupied => "File exists"
  | isDirectory => "Is a directory"
  | tooLong => "File name too long"

def message (e : PathError) : String := s!"{e.reason} (os error {e.code})"

def ofCode? (code : Nat) : Option PathError := all.find? (·.code == code)

end PathError

abbrev Location : Type := List String

structure FileTree where
  files : List (Location × String)

namespace FileTree

def splitPath (path : String) : List String := path.splitOn "/"

def ofFiles (files : List (String × String)) : FileTree :=
  ⟨files.map fun (path, content) =>
    ((splitPath path).filter fun name => name != "" && name != ".", content)⟩

def content? (tree : FileTree) (place : Location) : Option String :=
  (tree.files.find? (·.1 == place)).map (·.2)

def isFile (tree : FileTree) (place : Location) : Bool := (tree.content? place).isSome

def isDirectory (tree : FileTree) (place : Location) : Bool :=
  place.isEmpty || tree.files.any fun file => place.isPrefixOf file.1 && place != file.1

def isTooLong (name : String) : Bool := 255 < name.utf8ByteSize

/-- The place that steps lead to; each is taken in a directory. -/
def walk (tree : FileTree) (place : Location) : List String → Except PathError Location
  | [] => .ok place
  | step :: steps =>
    if tree.isFile place then .error .notDirectory
    else if step = "" || step = "." then tree.walk place steps
    else if step = ".." then
      if place.isEmpty then .error .missing else tree.walk place.dropLast steps
    else
      let next := place ++ [step]
      if isTooLong step then .error .tooLong
      else if tree.isFile next || tree.isDirectory next then tree.walk next steps
      else .error .missing

/-- The place of a path, which may not lead out of the tree. -/
def locate (tree : FileTree) (path : String) : Except PathError Location :=
  match path.toList with
  | '/' :: _ => .error .missing
  | _ => tree.walk [] (splitPath path)

def read (tree : FileTree) (place : Location) : Except PathError String :=
  match tree.content? place with
  | some content => .ok content
  | none => .error .isDirectory

/-- The directory that steps lead to, which are made where they are missing; none if they lead out
of the tree. -/
def makeDirectories (tree : FileTree) (place : Location) :
    List String → Except PathError (Option Location)
  | [] => .ok (some place)
  | step :: steps =>
    if step = "" || step = "." then tree.makeDirectories place steps
    else if step = ".." then
      if place.isEmpty then .ok none else tree.makeDirectories place.dropLast steps
    else
      let next := place ++ [step]
      if isTooLong step then .error .tooLong
      else if tree.isFile next then .error (if steps.isEmpty then .occupied else .notDirectory)
      else tree.makeDirectories next steps

def appendTo (place : Location) (text : String) :
    List (Location × String) → List (Location × String)
  | [] => [(place, text)]
  | (other, content) :: files =>
    if other = place then (other, content ++ text) :: files
    else (other, content) :: appendTo place text files

/-- Adds text at the end of a file, which is made if it is missing. -/
def append (tree : FileTree) (place : Location) (text : String) : FileTree :=
  ⟨appendTo place text tree.files⟩

end FileTree
end TopicSpec
