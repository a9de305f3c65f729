import TopicSpec.Scan.Outcome

/-! # Lexemes

Identifiers, topic names, quoted strings, numbers and keywords, and the gaps between them. -/

namespace TopicSpec.Scan
set_option autoImplicit false

def isWordStart (c : Char) : Bool := c.isAlpha || c == '_'

def isWordChar (c : Char) : Bool := c.isAlphanum || c == '_'

theorem isWordChar_of_isWordStart {c : Char} (h : isWordStart c = true) : isWordChar c = true := by
  simp only [isWordStart, isWordChar, Char.isAlphanum, Bool.or_eq_true] at h ⊢
  exact h.imp_left .inl

/-- Words that name no field, variable or function. -/
def reserved : List String :=
  ["and", "or", "not", "forall", "exists", "in", "to", "True", "False", "PI", "INF", "NAN"]

def isReserved (word : List Char) : Bool := reserved.any fun r => r.toList == word

/-- An identifier: letters, digits and underscores, the first of them no digit. -/
def identifier : Scan (List Char)
  | [] => .reject false [] []
  | c :: s => if isWordStart c then someRun isWordChar (c :: s) else .reject false [] (c :: s)

def name : Scan (List Char) := fun s =>
  match identifier s with
  | .accept word rest => if isReserved word then .reject false [] s else .accept word rest
  | .reject committed expected rest => .reject committed expected rest

def topicSegment : Scan (Option (List Char)) := do
  match ← optional (oneOf (· == '/')) with
  | none => return none
  | some slash => return some (slash :: (← require .nameSegment identifier))

/-- A topic name: segments with slashes between them, after an optional slash or tilde. -/
def topicName : Scan (List Char) := do
  let lead ← optional (oneOf fun c => c == '/' || c == '~')
  let first ← identifier
  let more ← many topicSegment
  return lead.toList ++ first ++ more.flatten

/-- A text between double quotes, which are kept. -/
def quoted : Scan (List Char) := do
  literal "\""
  let inner ← run (· != '"')
  require .closingQuote (literal "\"")
  return '"' :: inner ++ ['"']

def fraction : Scan (List Char) := do
  let point ← oneOf (· == '.')
  let digits ← someRun Char.isDigit
  return point :: digits

def exponent : Scan (List Char) := do
  let mark ← oneOf fun c => c == 'e' || c == 'E'
  let sign ← optional (oneOf fun c => c == '+' || c == '-')
  let digits ← someRun Char.isDigit
  return mark :: sign.toList ++ digits

/-- An unsigned number: digits, then a fraction and an exponent, each of them only if it is
complete. -/
def number : Scan (List Char) := do
  let whole ← someRun Char.isDigit
  let fraction ← optional fraction
  let exponent ← optional exponent
  return whole ++ fraction.getD [] ++ exponent.getD []

def isGapChar (c : Char) : Bool := c == ' ' || c == '\t' || c == '\r' || c == '\n'

/-- What follows the gap at the front of a text, `comment` telling that a comment is open. -/
def afterGap (comment : Bool) : List Char → List Char
  | [] => []
  | c :: s =>
    if comment then afterGap (c != '\n') s
    else if isGapChar c then afterGap false s
    else if c == '#' then afterGap true s
    else c :: s

/-- Skips blanks, line ends and comments, which run from `#` to the end of the line. -/
def gap : Scan Unit := fun s => .accept () (afterGap false s)

/-- Reads `word` where no longer word stands. -/
def keyword (word : String) : Scan Unit := fun s =>
  match dropWord word.toList s with
  | none => .reject false [] s
  | some [] => .accept () []
  | some (c :: rest) => if isWordChar c then .reject false [] s else .accept () (c :: rest)

def oneKeyword (word : String) (more : List String) : Scan String :=
  firstOf (keyword word >>= fun _ => pure word)
    (more.map fun w => keyword w >>= fun _ => pure w)

end TopicSpec.Scan
