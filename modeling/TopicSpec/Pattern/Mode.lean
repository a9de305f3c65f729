import TopicSpec.Scan.Digits
import TopicSpec.Text.Blank

/-! # Modes and escapes of patterns

The parts of a pattern are read in a mode, which flags change. Patterns know the characters of
ASCII only: a part that needs more of the Unicode standard, such as the set of all digits or a
letter in either case, is no part of a pattern. So is a part that matches single bytes beyond
ASCII. -/

namespace TopicSpec.Pattern
open Scan
set_option autoImplicit false

structure Mode where
  /-- Blanks and comments between the parts are passed over. -/
  spaced : Bool
  /-- Letters stand for both cases. -/
  caseless : Bool
  /-- Characters are matched, and not bytes. -/
  unicode : Bool

namespace Mode

def standard : Mode := ⟨false, false, true⟩

/-- The flags before a minus sign are set, those behind it are taken back. -/
def change (mode : Mode) (flags : List Char) : Mode :=
  let on := flags.takeWhile (· != '-')
  let off := flags.dropWhile (· != '-')
  let flag (c : Char) (old : Bool) := on.contains c || (old && !off.contains c)
  ⟨flag 'x' mode.spaced, flag 'i' mode.caseless, flag 'u' mode.unicode⟩

def hasLiterals (mode : Mode) : Bool := !(mode.caseless && mode.unicode)

end Mode

def comment : Scan Unit := do
  literal "#"
  let _ ← run (· != '\n')

def gap (mode : Mode) : Scan Unit :=
  if mode.spaced then do
    let _ ← many (optional (orElse (oneOf Text.isBlank >>= fun _ => pure ()) comment))
  else pure ()

/-- What a backslash and the characters behind it stand for. -/
inductive Escape where
  | char (c : Char)
  | set
  /-- A condition on the place, perhaps that a word of any letters begins or ends there. -/
  | place (wordBoundary : Bool)

def hexDigits (mode : Mode) : Nat → Scan (List Char)
  | 0 => pure []
  | n + 1 => do
    gap mode
    let c ← oneOf isHexDigit
    return c :: (← hexDigits mode n)

/-- The character with the given number of digits; two digits stand for a byte. -/
def codePoint (mode : Mode) (digits : Nat) : Scan Escape := do
  let n := ofBase 16 (← hexDigits mode digits)
  ensure (digits != 2 || mode.unicode || n < 128)
  return .char (← given (ofCodePoint? n))

def escape (mode : Mode) : Scan Escape := do
  literal "\\"
  match ← oneOf fun _ => true with
  | 'x' => codePoint mode 2
  | 'u' => codePoint mode 4
  | 'U' => codePoint mode 8
  | 'd' | 's' | 'w' => if mode.unicode then fail else return .set
  | 'a' => return .char (Char.ofNat 7)
  | 'f' => return .char (Char.ofNat 12)
  | 't' => return .char '\t'
  | 'n' => return .char '\n'
  | 'r' => return .char '\r'
  | 'v' => return .char (Char.ofNat 11)
  | 'A' | 'z' => return .place false
  | 'b' | 'B' | '<' | '>' => return .place mode.unicode
  | c => if c.toNat < 128 && !c.isAlphanum then return .char c else fail

end TopicSpec.Pattern
