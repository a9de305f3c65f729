import TopicSpec.Double.Basic

/-! # Reading decimal numbers

The double nearest to a decimal number, and the texts of such numbers: digits with an optional
point and exponent, or a word for a number that is not finite. -/

namespace TopicSpec.Double
set_option autoImplicit false

/-- The double nearest to `digits * 10 ^ exponent`. Beyond the two bounds on the exponent lie only
infinity and zero, so no power of ten is formed there. -/
def ofDecimal (negative : Bool) (digits : Nat) (exponent : Int) : Double :=
  if digits = 0 then ofRatio negative 0 1
  else if 400 < exponent then infinity negative
  else if exponent < -(400 + digits.log2 : Nat) then ofRatio negative 0 1
  else if 0 ≤ exponent then ofRatio negative (digits * Nat.pow 10 exponent.toNat) 1
  else ofRatio negative digits (Nat.pow 10 (-exponent).toNat)

def ofDigits (digits : List Char) : Nat :=
  digits.foldl (fun n c => 10 * n + (c.toNat - '0'.toNat)) 0

def splitSign : List Char → Bool × List Char
  | '-' :: s => (true, s)
  | '+' :: s => (false, s)
  | s => (false, s)

/-- The exponent that ends a decimal number: nothing, or a mark, a sign and digits. -/
def exponent? : List Char → Option Int
  | [] => some 0
  | c :: s =>
    if c == 'e' || c == 'E' then
      let (negative, digits) := splitSign s
      if digits.isEmpty || !digits.all Char.isDigit then none
      else some (if negative then -(ofDigits digits : Int) else ofDigits digits)
    else none

/-- An unsigned decimal number: digits with a point before, among or behind them, and an
exponent. -/
def ofUnsigned? (negative : Bool) (s : List Char) : Option Double :=
  let whole := s.takeWhile Char.isDigit
  let (part, rest) :=
    match s.dropWhile Char.isDigit with
    | '.' :: t => (t.takeWhile Char.isDigit, t.dropWhile Char.isDigit)
    | t => ([], t)
  if whole.isEmpty && part.isEmpty then none
  else (exponent? rest).map fun e => ofDecimal negative (ofDigits (whole ++ part)) (e - part.length)

/-- The double nearest to the number written by a text, with an optional sign. -/
def ofText? (s : List Char) : Option Double :=
  let (negative, body) := splitSign s
  let word := String.ofList (body.map Char.toLower)
  if word = "nan" then some nan
  else if word = "inf" || word = "infinity" then some (infinity negative)
  else ofUnsigned? negative body

end TopicSpec.Double
