import TopicSpec.Scan.Expectation

/-! # Scanners

A scanner reads from the front of a text. It accepts with a value and the text that is left, or
it rejects with what it had expected and the text at which it stopped. A committed rejection is
final: no alternative is tried after it.
-/

namespace TopicSpec
set_option autoImplicit false

/-- The answer of a scanner, with the text at which it stands afterwards. -/
inductive Outcome (α : Type) where
  | accept (value : α) (rest : List Char)
  | reject (committed : Bool) (expected : List Scan.Expectation) (rest : List Char)
  deriving DecidableEq

namespace Outcome

def rest {α : Type} : Outcome α → List Char
  | .accept _ rest => rest
  | .reject _ _ rest => rest

end Outcome

def Scan (α : Type) : Type := List Char → Outcome α

namespace Scan

variable {α β : Type}

instance : Monad Scan where
  pure a := fun s => .accept a s
  bind p f := fun s =>
    match p s with
    | .accept a rest => f a rest
    | .reject committed expected rest => .reject committed expected rest

theorem pure_apply (a : α) (s : List Char) : (pure a : Scan α) s = .accept a s := rfl

theorem bind_apply (p : Scan α) (f : α → Scan β) (s : List Char) :
    (p >>= f) s =
      match p s with
      | .accept a rest => f a rest
      | .reject committed expected rest => .reject committed expected rest := rfl

def fail : Scan α := fun s => .reject false [] s

def given : Option α → Scan α
  | some a => pure a
  | none => fail

def ensure (condition : Bool) : Scan Unit := if condition then pure () else fail

/-- Makes every rejection of `p` final. -/
def commit (p : Scan α) : Scan α := fun s =>
  match p s with
  | .accept a rest => .accept a rest
  | .reject _ expected rest => .reject true expected rest

/-- Adds `e`, as the outermost expectation, to every rejection of `p`. -/
def expecting (e : Expectation) (p : Scan α) : Scan α := fun s =>
  match p s with
  | .accept a rest => .accept a rest
  | .reject committed expected rest => .reject committed (expected ++ [e]) rest

/-- What `p` reads has to stand here, and is called `e` otherwise. -/
def require (e : Expectation) (p : Scan α) : Scan α := expecting e (commit p)

/-- Tries `q` from the same place if `p` rejects without commitment. -/
def orElse (p q : Scan α) : Scan α := fun s =>
  match p s with
  | .accept a rest => .accept a rest
  | .reject true expected rest => .reject true expected rest
  | .reject false _ _ => q s

/-- The first alternative that does not reject without commitment, each tried from the same
place; otherwise the rejection of the last. -/
def firstOf (p : Scan α) : List (Scan α) → Scan α
  | [] => p
  | q :: more => orElse p (firstOf q more)

/-- Reads nothing, and stays where it is, if `p` rejects without commitment. -/
def optional (p : Scan α) : Scan (Option α) := fun s =>
  match p s with
  | .accept a rest => .accept (some a) rest
  | .reject true expected rest => .reject true expected rest
  | .reject false _ _ => .accept none s

def peek (test : List Char → Bool) : Scan Bool := fun s => .accept (test s) s

def dropWord : List Char → List Char → Option (List Char)
  | [], s => some s
  | _ :: _, [] => none
  | c :: word, d :: s => if c = d then dropWord word s else none

theorem dropWord_eq_some_iff {word s rest : List Char} :
    dropWord word s = some rest ↔ s = word ++ rest := by
  induction word generalizing s with
  | nil => simp [dropWord]
  | cons c word ih =>
    cases s with
    | nil => simp [dropWord]
    | cons d s =>
      by_cases h : c = d
      · simp [dropWord, h, ih]
      · simp [dropWord, h, Ne.symm h]

def literal (word : String) : Scan Unit := fun s =>
  match dropWord word.toList s with
  | some rest => .accept () rest
  | none => .reject false [] s

def oneMark (mark : String) (more : List String) : Scan String :=
  firstOf (literal mark >>= fun _ => pure mark) (more.map fun m => literal m >>= fun _ => pure m)

def oneOf (accepts : Char → Bool) : Scan Char
  | [] => .reject false [] []
  | c :: s => if accepts c then .accept c s else .reject false [] (c :: s)

def run (accepts : Char → Bool) : Scan (List Char) := fun s =>
  .accept (s.takeWhile accepts) (s.dropWhile accepts)

def someRun (accepts : Char → Bool) : Scan (List Char) := fun s =>
  match s.takeWhile accepts with
  | [] => .reject false [] s
  | c :: word => .accept (c :: word) (s.dropWhile accepts)

/-- Repeats `step`, at most `n` times, for as long as it answers a value. -/
def manyWithin (step : Scan (Option α)) : Nat → Scan (List α)
  | 0 => pure []
  | n + 1 => do
    match ← step with
    | some a => return a :: (← manyWithin step n)
    | none => return []

/-- Repeats `step` for as long as it answers a value. The bound is met by every step that reads at
least one character for each value. -/
def many (step : Scan (Option α)) : Scan (List α) := fun s => manyWithin step (s.length + 1) s

/-- Changes a state, at most `n` times, for as long as `step` answers a new one. -/
def repeatWithin (step : α → Scan (Option α)) : Nat → α → Scan α
  | 0, state => pure state
  | n + 1, state => do
    match ← step state with
    | some state => repeatWithin step n state
    | none => return state

/-- Changes a state for as long as `step` answers a new one. The bound is met by every step that
reads at least one character for each new state. -/
def repeated (step : α → Scan (Option α)) (state : α) : Scan α := fun s =>
  repeatWithin step (s.length + 1) state s

def byteSize : List Char → Nat
  | [] => 0
  | c :: s => c.utf8Size + byteSize s

/-- The number of bytes read when `rest` is left of `text`. -/
def offset (text rest : List Char) : Nat := byteSize text - byteSize rest

theorem byteSize_append (read rest : List Char) :
    byteSize (read ++ rest) = byteSize read + byteSize rest := by
  induction read with
  | nil => simp [byteSize]
  | cons c read ih => simp [byteSize, ih, Nat.add_assoc]

theorem offset_append (read rest : List Char) : offset (read ++ rest) rest = byteSize read := by
  simp [offset, byteSize_append]

end Scan

/-- Where, and expecting what, the reading of a whole text stopped. -/
structure SyntaxError where
  offset : Nat
  expected : List Scan.Expectation
  deriving DecidableEq

namespace SyntaxError

def message (e : SyntaxError) : String :=
  match e.expected with
  | [] => "unexpected input"
  | expected => Scan.Expectation.describeAll expected

end SyntaxError

/-- Reads a whole text: what the scanner leaves is unexpected. -/
def Scan.whole {α : Type} (p : Scan α) (text : List Char) : Except SyntaxError α :=
  match p text with
  | .accept a [] => .ok a
  | .accept _ rest => .error ⟨Scan.offset text rest, []⟩
  | .reject _ expected rest => .error ⟨Scan.offset text rest, expected⟩

theorem Scan.whole_eq_ok_iff {α : Type} {p : Scan α} {text : List Char} {a : α} :
    p.whole text = .ok a ↔ p text = .accept a [] := by
  unfold Scan.whole
  split <;> simp_all

end TopicSpec
