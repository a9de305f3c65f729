/-! # Doubles

Floating-point numbers of double precision as exact data. The magnitude of a finite double is its
bit pattern, and the doubles of one sign are ordered as their patterns are. Every magnitude is a
whole number of units of `2 ^ -1074`. A ratio is rounded to the nearest double, and of two equally
near ones to the one with the even pattern.
-/

namespace TopicSpec
set_option autoImplicit false

/-- The least pattern that is no finite magnitude. -/
abbrev Double.patternLimit : Nat := 2047 * Nat.pow 2 52

inductive Double where
  | nan
  | infinity (negative : Bool)
  | finite (negative : Bool) (pattern : Fin Double.patternLimit)
  deriving DecidableEq

namespace Double

/-- The number of units in 1. -/
abbrev unitsPerOne : Nat := Nat.pow 2 1074

/-- The number of units in the magnitude with a pattern. -/
def units (pattern : Nat) : Nat :=
  let binade := Nat.pow 2 52
  if pattern < binade then pattern
  else (binade + pattern % binade) * Nat.pow 2 (pattern / binade - 1)

/-- The quotient rounded to the nearest whole number, a half to the even one. -/
def divideToEven (a b : Nat) : Nat :=
  if 2 * (a % b) < b then a / b
  else if b < 2 * (a % b) then a / b + 1
  else a / b + a / b % 2

/-- The pattern nearest to a ratio, which may lie beyond the finite ones. The exponent is the one
of the ratio cut to whole units; a significand rounded up to the next power of two carries into
the exponent. -/
def nearestPattern (num den : Nat) : Nat :=
  let exponent := (num * unitsPerOne / den).log2 - 52
  exponent * Nat.pow 2 52 + divideToEven (num * unitsPerOne) (den * Nat.pow 2 exponent)

/-- The double nearest to a ratio of the given sign. -/
def ofRatio (negative : Bool) (num den : Nat) : Double :=
  let pattern := nearestPattern num den
  if h : pattern < patternLimit then finite negative ⟨pattern, h⟩ else infinity negative

def ofInt (n : Int) : Double := ofRatio (n < 0) n.natAbs 1

def neg : Double → Double
  | nan => nan
  | infinity negative => infinity !negative
  | finite negative pattern => finite (!negative) pattern

def isFinite : Double → Bool
  | finite _ _ => true
  | _ => false

/-- Tells whether a double is a finite number above zero. -/
def isPositive : Double → Bool
  | finite false pattern => pattern.val != 0
  | _ => false

/-- The quotient by a positive whole number. -/
def divideBy (x : Double) (d : Nat) : Double :=
  match x with
  | finite negative pattern => ofRatio negative (units pattern) (unitsPerOne * d)
  | other => other

/-- The reciprocal; that of a zero is an infinity. -/
def reciprocal : Double → Double
  | nan => nan
  | infinity negative => finite negative ⟨0, by decide⟩
  | finite negative pattern =>
    if units pattern = 0 then infinity negative
    else ofRatio negative unitsPerOne (units pattern)

/-! ## Bits -/

/-- The 64 bits of a double, if it is a number. -/
def bits : Double → Option Nat
  | nan => none
  | infinity negative => some (negative.toNat * Nat.pow 2 63 + patternLimit)
  | finite negative pattern => some (negative.toNat * Nat.pow 2 63 + pattern.val)

/-- The double with the given bits. -/
def ofBits (bits : Nat) : Double :=
  let negative := bits / Nat.pow 2 63 % 2 = 1
  let pattern := bits % Nat.pow 2 63
  if h : pattern < patternLimit then finite negative ⟨pattern, h⟩
  else if pattern = patternLimit then infinity negative
  else nan

/-- The double nearest to the ratio of a circle to its diameter. -/
def pi : Double := ofBits 0x400921fb54442d18

end Double
end TopicSpec
