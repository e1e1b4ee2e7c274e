import ItemScoring.Number.Decimal

/-!
# The fewest digits that read back

`shortest` finds, for a positive finite double, the decimal with the fewest
digits that rounds to this double, and among those the one nearest to it.  For
one, two, … digits it looks at the two neighbours of the double on the grid of
decimals with that many digits, and keeps those that `Decimal.pattern` reads
back.  A neighbour is only kept if it reads back, so that reading what was
written gives the same double again.

Where both neighbours read back and lie equally near, the choice is left to the
format that writes the number (`Tie`).
-/

namespace ItemScoring

/-- Which of two equally near neighbours is chosen. -/
inductive Tie
  | up
  /-- The one whose last digit is even. -/
  | even
deriving Repr, DecidableEq

namespace Decimal

/-- The double nearest to `digits * 10 ^ exponent` has the pattern `p`. -/
def readsBack (p digits : Nat) (exponent : Int) : Bool :=
  ({ negative := false, digits, exponent } : Decimal).pattern == p

/-- The least power of ten above `num / den`: an estimate from below by the
binary logarithm, corrected upwards. -/
def scaleAbove (num den : Nat) : Int :=
  let estimate := Binary64.floorLog num den * 30103 / 100000 - 1
  let isAbove (steps : Nat) : Bool :=
    let (n, d) := Binary64.scaleDown 10 num den (estimate + steps)
    n < d
  estimate + ((List.range 5).find? isAbove).getD 5

/-- The neighbour of the value of the pattern `p` on the grid of multiples of
`10 ^ grid` that reads back as `p` and is nearest to it. -/
def neighbour? (tie : Tie) (p : Nat) (grid : Int) : Option Nat :=
  let (num, den) := Binary64.ratio p
  let (n, d) := Binary64.scaleDown 10 num den grid
  let floor := n / d
  let twice := 2 * (n % d)
  match readsBack p floor grid, readsBack p (floor + 1) grid with
  | false, false => none
  | true, false => some floor
  | false, true => some (floor + 1)
  | true, true =>
    if twice < d then some floor
    else if d < twice then some (floor + 1)
    else match tie with
      | .up => some (floor + 1)
      | .even => some (if floor % 2 = 0 then floor else floor + 1)

/-- The first hit on the grids of one to `count` more digits, starting below
`10 ^ scale`. -/
def search? (tie : Tie) (p : Nat) (scale : Int) : (count : Nat) → Option (Nat × Int)
  | 0 => none
  | count + 1 =>
    match neighbour? tie p (scale - 1) with
    | some digits => some (digits, scale - 1)
    | none => search? tie p (scale - 1) count

/-- The value of a pattern with all its digits. -/
def exact (p : Nat) : Nat × Int :=
  match Binary64.exponent p with
  | .ofNat e => (Binary64.significand p * Nat.pow 2 e, 0)
  | .negSucc e => (Binary64.significand p * Nat.pow 5 (e + 1), .negSucc e)

/-- Drops up to `count` zeros at the end of the digits. -/
def dropZeros : (count digits : Nat) → (exponent : Int) → Nat × Int
  | 0, digits, exponent => (digits, exponent)
  | count + 1, digits, exponent =>
    if digits ≠ 0 ∧ digits % 10 = 0 then dropZeros count (digits / 10) (exponent + 1)
    else (digits, exponent)

/-- The fewest digits that read back as the positive finite pattern `p`, with the
power of ten of the last one.  Seventeen digits suffice for every double. -/
def shortest (tie : Tie) (p : Nat) : Nat × Int :=
  let (num, den) := Binary64.ratio p
  let (digits, exponent) := (search? tie p (scaleAbove num den) 17).getD (exact p)
  dropZeros digits.log2 digits exponent

end Decimal

end ItemScoring
