import TopicSpec.Pattern.Bracket
import TopicSpec.Text.Alphanumeric

/-! # Patterns

The grammar of regular expressions. A text is only tested for being one that can be matched. -/

namespace TopicSpec.Pattern
open Scan
set_option autoImplicit false

inductive Error where
  | malformed
  /-- It asks where words of any letters begin or end. -/
  | wordBoundary
  deriving DecidableEq

def Error.message : Error → String
  | malformed => "error building NFA"
  | wordBoundary =>
    "unsupported regex feature for DFAs: cannot build DFAs for regexes with Unicode word " ++
      "boundaries; switch to ASCII word boundaries, or heuristically enable Unicode word " ++
      "boundaries or use a different regex engine"

/-- What has been read of a group, the last first. -/
structure Group where
  mode : Mode
  /-- The names of all groups of the pattern so far. -/
  names : List String
  wordBoundary : Bool
  /-- The depths of the alternatives before the present one. -/
  alternatives : List Nat
  /-- The depths of the parts of the present alternative; one that cannot be repeated has none. -/
  parts : List (Option Nat)

namespace Group

def empty (mode : Mode) (names : List String) : Group := ⟨mode, names, false, [], []⟩

def add (group : Group) (depth : Nat) : Group := { group with parts := some depth :: group.parts }

def addPlace (group : Group) (wordBoundary : Bool) : Group :=
  { group.add 0 with wordBoundary := group.wordBoundary || wordBoundary }

def endAlternative (group : Group) : Group :=
  { group with
    alternatives := nest (group.parts.map fun part => part.getD 0) :: group.alternatives
    parts := [] }

def depth (group : Group) : Nat := nest group.endAlternative.alternatives

def addGroup (group inner : Group) : Group :=
  { group.add (inner.depth + 1) with
    names := inner.names
    wordBoundary := group.wordBoundary || inner.wordBoundary }

end Group

/-! ## Openings of groups -/

inductive Opening where
  | plain
  | named (name : String)
  | flagged (flags : List Char)
  /-- Flags for what follows, and no group. -/
  | flags (flags : List Char)

def isNameStart (c : Char) : Bool := c == '_' || Text.isAlphabetic c

def isNameChar (c : Char) : Bool :=
  ['_', '.', '[', ']'].contains c || Text.isAlphanumeric c

def named : Scan Opening := do
  let _ ← oneMark "?P<" ["?<"]
  let first ← oneOf isNameStart
  let more ← run isNameChar
  literal ">"
  return .named (String.ofList (first :: more))

/-- Flags without repetition, with a minus sign before the last of them or none. -/
def flagList : Scan (List Char) := do
  let flags ← run ("imsUuRx-".toList.contains ·)
  ensure (flags.eraseDups = flags && flags.getLast? != some '-')
  return flags

def flagged : Scan Opening := do
  literal "?"
  let flags ← flagList
  let mark ← oneMark ":" [")"]
  if mark = ":" then return .flagged flags
  ensure !flags.isEmpty
  return .flags flags

def opening (mode : Mode) : Scan Opening := do
  literal "("
  gap mode
  firstOf named [flagged, pure .plain]

/-! ## Parts -/

/-- A group in parentheses, or flags; `body` reads the rest of a group up to its end. -/
def parenthesized (body : Group → Scan Group) (group : Group) : Scan Group := do
  let within (mode : Mode) (names : List String) : Scan Group := do
    let inner ← body (.empty mode names)
    literal ")"
    return group.addGroup inner
  match ← opening group.mode with
  | .plain => within group.mode group.names
  | .named name =>
    ensure !(group.names.contains name)
    within group.mode (name :: group.names)
  | .flagged flags => within (group.mode.change flags) group.names
  | .flags flags =>
    return { group with mode := group.mode.change flags, parts := none :: group.parts }

def repetition (group : Group) : Scan Group := do
  let _ ← oneMark "?" ["*", "+"]
  let _ ← optional (literal "?")
  match group.parts with
  | some depth :: parts => return { group with parts := some (depth + 1) :: parts }
  | _ => fail

def alternative (group : Group) : Scan Group := do
  literal "|"
  return group.endAlternative

def escaped (group : Group) : Scan Group := do
  match ← escape group.mode with
  | .char _ =>
    ensure group.mode.hasLiterals
    return group.add 0
  | .set => return group.add 0
  | .place wordBoundary => return group.addPlace wordBoundary

/-- A character that stands for itself, for any other, or for the start or end of the text. -/
def character (group : Group) : Scan Group := do
  match ← oneOf fun c => !(['\\', '(', ')', '[', '|', '?', '*', '+', '\x7b'].contains c) with
  | '^' | '$' => return group.addPlace false
  | '.' =>
    ensure group.mode.unicode
    return group.add 0
  | _ =>
    ensure group.mode.hasLiterals
    return group.add 0

def part (body : Group → Scan Group) (group : Group) : Scan Group := do
  gap group.mode
  firstOf (parenthesized body group)
    [group.add <$> bracket group.mode, repetition group, alternative group, escaped group,
     character group]

/-- What is left of a group, with at most `depth` others in each other. -/
def bodyWithin : Nat → Group → Scan Group
  | 0 => fun _ => fail
  | depth + 1 => fun group => do
    let group ← repeated (fun group => optional (part (bodyWithin depth) group)) group
    gap group.mode
    return group

def check (text : List Char) : Except Error Unit :=
  match (bodyWithin (depthLimit + 1) (.empty .standard [])).whole text with
  | .error _ => .error .malformed
  | .ok group =>
    if depthLimit < group.depth then .error .malformed
    else if group.wordBoundary then .error .wordBoundary
    else .ok ()

end TopicSpec.Pattern
