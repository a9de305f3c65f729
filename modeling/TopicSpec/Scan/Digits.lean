import TopicSpec.Scan.Outcome

/-! # Digits

Runs of a known length, and the numbers and characters that digits of a base stand for. -/

namespace TopicSpec.Scan
set_option autoImplicit false

/-- Reads exactly `n` characters of the class. -/
def exactly (accepts : Char → Bool) : Nat → Scan (List Char)
  | 0 => pure []
  | n + 1 => do
    let c ← oneOf accepts
    return c :: (← exactly accepts n)

def isHexDigit (c : Char) : Bool :=
  c.isDigit || ('a' ≤ c && c ≤ 'f') || ('A' ≤ c && c ≤ 'F')

def digitValue (c : Char) : Nat :=
  if c.isDigit then c.toNat - '0'.toNat else c.toLower.toNat - 'a'.toNat + 10

def ofBase (base : Nat) (digits : List Char) : Nat :=
  digits.foldl (fun n c => base * n + digitValue c) 0

/-- The character with a code point, if there is one. -/
def ofCodePoint? (n : Nat) : Option Char := if n.isValidChar then some (Char.ofNat n) else none

end TopicSpec.Scan
