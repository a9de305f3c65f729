import TopicSpec.Double.Decimal

/-! # Shortest decimal texts

A finite double is written with the fewest significant digits that read back as the same double,
and among those with the ones nearest to it. All digits are written out, without exponent. -/

namespace TopicSpec.Double
set_option autoImplicit false

def digitsOf (n : Nat) : List Char := Nat.toDigits 10 n

/-- The number of digits before the point, as a power of ten: the exponent `d` with
`10 ^ (d - 1) ≤ x < 10 ^ d` for the magnitude `x` of a positive pattern. -/
def decade (pattern : Nat) : Int :=
  (digitsOf (units pattern * Nat.pow 10 400 / unitsPerOne)).length - 400

/-- The magnitude in steps of `10 ^ exponent`, as numerator and denominator. -/
def inSteps (pattern : Nat) (exponent : Int) : Nat × Nat :=
  if 0 ≤ exponent then (units pattern, unitsPerOne * Nat.pow 10 exponent.toNat)
  else (units pattern * Nat.pow 10 (-exponent).toNat, unitsPerOne)

/-- Tells whether a decimal number reads back as the magnitude. -/
def readsBack (pattern digits : Nat) (exponent : Int) : Bool :=
  (ofDecimal false digits exponent).bits == some pattern

/-- The decimal number in steps of `10 ^ exponent` that reads back as the magnitude, if there is
one beside it; the nearer of two, and the greater of two equally near. -/
def onGrid? (pattern : Nat) (exponent : Int) : Option Nat :=
  let (num, den) := inSteps pattern exponent
  let below := num / den
  match readsBack pattern below exponent, readsBack pattern (below + 1) exponent with
  | false, false => none
  | true, false => some below
  | false, true => some (below + 1)
  | true, true => some (if 2 * (num % den) < den then below else below + 1)

/-- Digits and exponent of the shortest decimal number that reads back as the magnitude. Seventeen
digits suffice for every double. -/
def shortest (pattern : Nat) : Nat × Int :=
  let exponents := (List.range 17).map fun n => decade pattern - (n + 1 : Nat)
  (exponents.findSome? fun e => (onGrid? pattern e).map (·, e)).getD
    (units pattern * Nat.pow 5 1074, -1074)

/-- The digits of `digits * 10 ^ exponent` in full, without point for a whole number. -/
def positional (digits : Nat) (exponent : Int) : List Char :=
  let text := digitsOf digits
  if 0 ≤ exponent then text ++ List.replicate exponent.toNat '0'
  else
    let places := (-exponent).toNat
    let padded := List.replicate (places + 1 - text.length) '0' ++ text
    let whole := padded.take (padded.length - places)
    let part := (padded.drop (padded.length - places)).reverse.dropWhile (· == '0') |>.reverse
    if part.isEmpty then whole else whole ++ '.' :: part

def render : Double → List Char
  | nan => "NaN".toList
  | infinity negative => (if negative then ['-'] else []) ++ "inf".toList
  | finite negative pattern =>
    (if negative then ['-'] else []) ++
      if pattern.val = 0 then ['0']
      else
        let (digits, exponent) := shortest pattern.val
        positional digits exponent

end TopicSpec.Double
