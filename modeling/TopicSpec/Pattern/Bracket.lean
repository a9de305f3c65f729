import TopicSpec.Pattern.Mode

/-! # Sets of characters in brackets

A set lists characters, ranges, named sets and further sets in brackets, with operators between
such lists. Only the depth of what it is made of is kept. -/

namespace TopicSpec.Pattern
open Scan
set_option autoImplicit false

/-- How deep the parts of a pattern may stand in each other. -/
def depthLimit : Nat := 250

/-- The depth of a whole whose parts have the given depths; a single part is the whole. -/
def nest : List Nat → Nat
  | [] => 0
  | [depth] => depth
  | depths => depths.foldl max 0 + 1

def setNames : List String :=
  ["alnum", "alpha", "ascii", "blank", "cntrl", "digit", "graph", "lower", "print", "punct",
   "space", "upper", "word", "xdigit"]

/-- A named set; answers whether all other characters are meant. -/
def namedSet : Scan Bool := do
  literal "[:"
  let negated ← optional (literal "^")
  let name ← run (· != ':')
  literal ":]"
  ensure (setNames.contains (String.ofList name))
  return negated.isSome

def member (mode : Mode) : Scan Escape :=
  orElse (escape mode) (Escape.char <$> oneOf (· != '\\'))

def isListed (mode : Mode) (c : Char) : Bool :=
  mode.hasLiterals && (mode.unicode || c.toNat < 128)

/-- The character that decides whether the minus sign before it makes a range. -/
def afterMinus (mode : Mode) (rest : List Char) : Option Char :=
  if mode.spaced then
    match rest.dropWhile Text.isBlank with
    | '#' :: rest => (rest.dropWhile Text.isBlank).head?
    | rest => rest.head?
  else rest.head?

def makesRange (mode : Mode) : List Char → Bool
  | '-' :: rest => afterMinus mode rest != some ']' && afterMinus mode rest != some '-'
  | _ => false

def range (mode : Mode) : Scan Unit := do
  let low ← member mode
  gap mode
  if ← peek (makesRange mode) then
    literal "-"
    gap mode
    match low, ← member mode with
    | .char low, .char high => ensure (isListed mode low && isListed mode high && low ≤ high)
    | _, _ => fail
  else
    match low with
    | .char c => ensure (isListed mode c)
    | .set => pure ()
    | .place _ => fail

def operator : Scan String := oneMark "&&" ["--", "~~"]

/-- A part of a list, with the depth of a further set in brackets. -/
def item (mode : Mode) (bracketed : Scan Nat) : Scan Nat := do
  gap mode
  match ← optional namedSet with
  | some negated =>
    ensure (mode.hasLiterals && (mode.unicode || !negated))
    return 0
  | none =>
    if ← peek fun rest => rest.head? == some '[' then bracketed
    else if ← peek fun rest => rest.head? != some ']' then
      match ← optional operator with
      | some _ => fail
      | none => range mode >>= fun _ => pure 0
    else fail

/-- The characters at the front of a set that stand for themselves there. -/
def front (mode : Mode) : Scan (List Nat) := do
  let marks ← many (optional (literal "-" >>= fun _ => gap mode))
  let bracket ←
    if marks.isEmpty then optional (literal "]" >>= fun _ => gap mode) else pure none
  let depths := (marks ++ bracket.toList).map fun _ => 0
  ensure (mode.hasLiterals || depths.isEmpty)
  return depths

/-- A set in brackets, which holds at most `depth` others in each other. -/
def bracketWithin (mode : Mode) : Nat → Scan Nat
  | 0 => fail
  | depth + 1 => do
    let item := item mode (bracketWithin mode depth)
    literal "["
    gap mode
    let negated ← optional (literal "^")
    ensure (mode.unicode || negated.isNone)
    gap mode
    let front ← front mode
    let first := nest (front ++ (← many (optional item)))
    let more ← many <| optional do
      gap mode
      let _ ← operator
      return nest (← many (optional item))
    gap mode
    literal "]"
    return more.foldl (fun left right => max left right + 1) first + 1

def bracket (mode : Mode) : Scan Nat := bracketWithin mode depthLimit

end TopicSpec.Pattern
