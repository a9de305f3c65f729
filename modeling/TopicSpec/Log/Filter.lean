import TopicSpec.Double.Decimal
import TopicSpec.Log.Record
import TopicSpec.Pattern.Grammar

/-! # Log filters

A filter is written as directives with commas between them: a level, or
`target[span{field=value}]=level` with most of it optional. Of the directives that concern a
record, the one with the longest target decides.
-/

namespace TopicSpec.Log
set_option autoImplicit false

/-- The levels that pass: those up to the given one, or none. -/
abbrev Threshold : Type := Option Level

def Threshold.passes (threshold : Threshold) (level : Level) : Bool :=
  match threshold with
  | some most => level.rank ≤ most.rank
  | none => false

structure Directive where
  target : Option String
  span : Option String
  /-- The fields a record has to have, each with the value that is asked for, if one is. -/
  fields : List (String × Option String)
  threshold : Threshold

inductive DirectiveError where
  | malformed
  | level
  /-- The value of a field is no pattern. -/
  | pattern (error : Pattern.Error)
  deriving DecidableEq

def DirectiveError.message : DirectiveError → String
  | malformed => "invalid filter directive"
  | level =>
    "error parsing level filter: expected one of \"off\", \"error\", \"warn\", \"info\", " ++
      "\"debug\", \"trace\", or a number 0-5"
  | pattern error => s!"invalid field filter: {error.message}"

/-! ## Reading directives -/

/-- The threshold with a number, which may have a plus sign. -/
def numbered? (text : List Char) : Option Threshold :=
  let digits :=
    match text with
    | '+' :: rest => rest
    | _ => text
  if digits.isEmpty || !digits.all Char.isDigit then none
  else
    match digits.foldl (fun n c => 10 * n + (c.toNat - '0'.toNat)) 0 with
    | 0 => some none
    | n => (Level.all.find? (·.rank == n)).map some

def threshold? (text : List Char) : Option Threshold :=
  (numbered? text).or <|
    let word := String.ofList (text.map Char.toUpper)
    if word = "OFF" then some none
    else if word = "" then some (some .error)
    else (Level.all.find? (·.name == word)).map some

/-- What the reading of a directive has come to, with the place where the present part begins. -/
inductive Reading where
  | start
  | head (since : Nat)
  | span (since : Nat)
  | field (since : Nat)
  | fields
  | target
  | level (since : Nat)

/-- What is left of a text behind the given number of bytes. -/
def dropBytes : Nat → List Char → List Char
  | 0, text => text
  | _, [] => []
  | n, c :: text => dropBytes (n - c.utf8Size) text

/-- The front of a text, with at least the given number of bytes if there are as many. -/
def takeBytes : Nat → List Char → List Char
  | 0, _ => []
  | _, [] => []
  | n, c :: text => c :: takeBytes (n - c.utf8Size) text

def slice (text : List Char) (since stop : Nat) : String :=
  String.ofList (takeBytes (stop - since) (dropBytes since text))

def placed (place : Nat) : List Char → List (Char × Nat)
  | [] => []
  | c :: text => (c, place) :: placed (place + c.utf8Size) text

def mayStart (c : Char) : Bool :=
  c == '-' || c == ':' || c == '_' || Text.isAlphanumeric c

def checkValue (value : String) : Except DirectiveError Unit :=
  if value = "true" || value = "false" || (Double.ofText? value.toList).isSome then .ok ()
  else (Pattern.check value.toList).mapError .pattern

def fieldOf (text : String) : Except DirectiveError (String × Option String) :=
  match text.splitOn "=" with
  | name :: value :: _ => do
    checkValue value
    return (name, some value)
  | _ => .ok (text, none)

def Reading.step (text : List Char) (place : Nat) (c : Char) :
    Reading × Directive → Except DirectiveError (Reading × Directive)
  | (.start, d) =>
    if c = '[' then .ok (.span (place + 1), d)
    else if mayStart c then .ok (.head place, d)
    else .error .malformed
  | (.head since, d) =>
    if c = '=' then .ok (.level (place + 1), { d with target := some (slice text since place) })
    else if c = '[' then
      .ok (.span (place + 1), { d with target := some (slice text since place) })
    else .ok (.head since, d)
  | (.span since, d) =>
    let name := slice text since place
    if c = ']' then .ok (.target, { d with span := some name })
    else if c = '\x7b' then
      .ok (.field (place + 1), { d with span := if name = "" then none else some name })
    else .ok (.span since, d)
  | (.field since, d) =>
    let name := slice text since place
    if c = '\x7d' then
      if name = "" then .error .malformed
      else do return (.fields, { d with fields := d.fields ++ [← fieldOf name] })
    else .ok (.field since, d)
  | (.fields, d) => if c = ']' then .ok (.target, d) else .error .malformed
  | (.target, d) => if c = '=' then .ok (.level (place + 1), d) else .error .malformed
  | (.level since, d) => .ok (.level since, d)

def Reading.finish (text : List Char) : Reading × Directive → Except DirectiveError Directive
  | (.head since, d) =>
    let word := dropBytes since text
    match threshold? word with
    | some threshold => .ok { d with threshold := threshold }
    | none => .ok { d with target := some (String.ofList word) }
  | (.level since, d) =>
    match dropBytes since text with
    | [] => .ok d
    | word =>
      match threshold? word with
      | some threshold => .ok { d with threshold := threshold }
      | none => .error .level
  | (.target, d) => .ok d
  | _ => .error .malformed

/-- Reads a directive; without a level, everything passes. Blanks around it do not take part, but
those before it belong to the bytes at the places that were found without them. -/
def Directive.ofText (text : List Char) : Except DirectiveError Directive := do
  let initial : Reading × Directive := (.start, ⟨none, none, [], some .trace⟩)
  let last ← (placed 0 (Text.trim text)).foldlM (fun state (c, i) => Reading.step text i c state) initial
  Reading.finish text last

/-! ## Filters -/

abbrev Filter : Type := List Directive

def splitDirectives (text : String) : List String := (text.splitOn ",").filter (· != "")

def Filter.ofText (text : String) : Except DirectiveError Filter :=
  (splitDirectives text).mapM fun part => Directive.ofText part.toList

/-- A filter of the directives that are well formed, with a notice about each of the others;
errors alone pass if there is no directive. -/
def Filter.ofTextLossy (text : String) : Filter × List String :=
  let parts := (splitDirectives text).map fun part => (part, Directive.ofText part.toList)
  let directives := parts.filterMap (·.2.toOption)
  let notices := parts.filterMap fun (part, read) =>
    match read with
    | .ok _ => none
    | .error e => some s!"ignoring `{part}`: {e.message}\n"
  (if directives.isEmpty then [⟨none, none, [], some .error⟩] else directives, notices)

namespace Directive

/-- Tells whether a directive concerns the record itself and not what surrounds it. -/
def isStatic (d : Directive) : Bool := d.span.isNone && d.fields.all (·.2.isNone)

def concerns (d : Directive) (record : Record) : Bool :=
  (d.target.all fun target => target.toList.isPrefixOf record.target.toList) &&
    d.fields.all fun field => record.fieldNames.contains field.1

def specificity (d : Directive) : Nat × Nat :=
  (match d.target with
    | some target => target.utf8ByteSize + 1
    | none => 0,
    d.fields.length)

def overrides (later earlier : Directive) : Bool :=
  let (target, fields) := later.specificity
  let (target', fields') := earlier.specificity
  target' < target || (target' = target &&
    (fields' < fields || (fields' = fields &&
      !(later.fields.map (·.1) < earlier.fields.map (·.1)))))

end Directive

def Filter.deciding? (filter : Filter) (record : Record) : Option Directive :=
  (filter.filter fun d => d.isStatic && d.concerns record).foldl
    (fun best d =>
      match best with
      | some earlier => if d.overrides earlier then some d else some earlier
      | none => some d) none

def Filter.passes (filter : Filter) (record : Record) : Bool :=
  match filter.deciding? record with
  | some d => Threshold.passes d.threshold record.level
  | none => false

end TopicSpec.Log
