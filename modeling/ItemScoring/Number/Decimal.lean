import ItemScoring.Number.Binary64

/-!
# Decimals

A decimal is an integer of digits scaled by a power of ten.  It is the form in
which numbers are read and written; `Decimal.toFloat` rounds it once to the
nearest double, so every reader of the library that goes through this type
rounds correctly.
-/

namespace ItemScoring

/-- The number `digits * 10 ^ exponent`, negated if `negative`.  The sign is kept
apart so that negative zero can be told from zero. -/
structure Decimal where
  negative : Bool
  digits : Nat
  exponent : Int
deriving Repr, DecidableEq

namespace Decimal

/-- The value of a run of decimal digits. -/
def valueOfDigits (cs : List Char) : Nat :=
  cs.foldl (fun value c => 10 * value + (c.toNat - '0'.toNat)) 0

/-- Whether an integer is one of 64 bits. -/
def isInt64 (n : Int) : Bool := -(Nat.pow 2 63 : Nat) ≤ n && n < (Nat.pow 2 63 : Nat)

/-- The decimal with the digits `whole` before the point and `fraction` behind
it, times a power of ten. -/
def ofParts (negative : Bool) (whole fraction : List Char) (power : Int) : Decimal where
  negative
  digits := valueOfDigits (whole ++ fraction)
  exponent := power - fraction.length

/-- The pattern nearest to the magnitude of a decimal.  The two outer cases lie
far outside the range of doubles; they keep the powers of ten small. -/
def pattern (x : Decimal) : Nat :=
  if x.digits = 0 then 0
  else if 400 < x.exponent then Binary64.infinity
  else if x.exponent + x.digits.log2 < -400 then 0
  else
    let (num, den) := Binary64.scaleDown 10 x.digits 1 (-x.exponent)
    Binary64.nearest num den

/-- The double nearest to a decimal, infinite from half a step above the greatest
finite double on. -/
def toFloat (x : Decimal) : Float := Binary64.ofPattern x.negative x.pattern

end Decimal

end ItemScoring
