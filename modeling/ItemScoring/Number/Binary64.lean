/-!
# Doubles as exact binary fractions

A double is a sign and a *pattern*, the natural number held by its other 63
bits.  Patterns below `infinity` are the finite magnitudes in increasing order,
and the pattern `p` stands for the exact value

```text
significand p * 2 ^ exponent p
```

This file reads patterns off doubles and back, and finds the pattern nearest to
a ratio of natural numbers (`nearest`).  The number formats of the library are
built on these two directions alone: what is written is chosen by exact integer
arithmetic, and what is read is rounded once, to nearest, ties to even.
-/

namespace ItemScoring.Binary64

/-! ### Patterns -/

/-- The sign bit, as the weight it has in the 64 bits. -/
def signWeight : Nat := Nat.pow 2 63

/-- The number of patterns that share an exponent. -/
def binade : Nat := Nat.pow 2 52

/-- The pattern of infinity; the patterns below it are finite, those above are
not numbers. -/
def infinity : Nat := 2047 * binade

/-- The pattern of the value that stands for all that are not numbers. -/
def notANumber : Nat := infinity + binade / 2

/-- The pattern of a double: its bits without the sign. -/
def pattern (x : Float) : Nat := x.toBits.toNat % signWeight

/-- Whether the sign bit is set; negative zero counts as negative. -/
def isNegative (x : Float) : Bool := signWeight ≤ x.toBits.toNat

/-- The double with the given sign and pattern. -/
def ofPattern (negative : Bool) (p : Nat) : Float :=
  Float.ofBits (UInt64.ofNat (if negative then signWeight + p else p))

/-- The integer that a finite pattern scales by a power of two. -/
def significand (p : Nat) : Nat :=
  if p < binade then p else binade + p % binade

/-- The power of two that scales the significand of a finite pattern. -/
def exponent (p : Nat) : Int :=
  if p < binade then -1074 else (p / binade : Nat) - 1075

/-- The value of a finite pattern as a numerator and a denominator. -/
def ratio (p : Nat) : Nat × Nat :=
  match exponent p with
  | .ofNat e => (significand p * Nat.pow 2 e, 1)
  | .negSucc e => (significand p, Nat.pow 2 (e + 1))

/-! ### Rounding -/

/-- The quotient rounded to the nearest natural number, a half to the even
neighbour. -/
def roundHalfEven (num den : Nat) : Nat :=
  let floor := num / den
  let twice := 2 * (num % den)
  if twice < den ∨ (twice = den ∧ floor % 2 = 0) then floor else floor + 1

/-- The ratio `num / den` divided by the power `base ^ e`, again as a ratio. -/
def scaleDown (base num den : Nat) : Int → Nat × Nat
  | .ofNat e => (num, den * Nat.pow base e)
  | .negSucc e => (num * Nat.pow base (e + 1), den)

/-- The exponent of the greatest power of two that is at most `num / den`, for
positive `num` and `den`. -/
def floorLog (num den : Nat) : Int :=
  let guess : Int := (num.log2 : Int) - den.log2
  let (n, d) := scaleDown 2 num den guess
  if d ≤ n then guess else guess - 1

/-- The pattern nearest to `num / den`, of two equally near the even one;
`infinity` from half a step above the greatest finite value on. -/
def nearest (num den : Nat) : Nat :=
  if num = 0 then 0
  else
    let e := max (-1074) (floorLog num den - 52)
    let (n, d) := scaleDown 2 num den e
    -- A significand that rounds up to `2 * binade` carries into the exponent field.
    min infinity ((e + 1074).toNat * binade + roundHalfEven n d)

/-- The double nearest to an integer. -/
def ofInt (n : Int) : Float := ofPattern (n < 0) (nearest n.natAbs 1)

end ItemScoring.Binary64
