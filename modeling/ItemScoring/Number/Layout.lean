import ItemScoring.Number.Shortest

/-!
# Layouts of numbers

Which digits a number has is settled by `Decimal.shortest`; a `Layout` says how
they are set.  Every format that the library writes has a layout of its own,
defined beside the format.
-/

namespace ItemScoring

/-- How the text of a double is set out. -/
structure Layout where
  /-- The least and the greatest decimal exponent that are written positionally;
  `none` if all of them are. -/
  positional : Option (Int × Int)
  /-- Whether a whole number written positionally ends in `.0`. -/
  point : Bool
  /-- Whether an exponent that is not negative carries a plus sign. -/
  plus : Bool
  /-- Which of two equally near decimals is written. -/
  tie : Tie
  nan : String
deriving Repr, DecidableEq

namespace Layout

/-- Digits with the point set where the power of ten of the last digit asks for
it: zeros fill up on the right or on the left. -/
def setPoint (point : Bool) (digits : List Char) (exponent : Int) : List Char :=
  match exponent with
  | .ofNat e => digits ++ List.replicate e '0' ++ (if point then ['.', '0'] else [])
  | .negSucc e =>
    if e + 1 < digits.length then
      digits.take (digits.length - (e + 1)) ++ '.' :: digits.drop (digits.length - (e + 1))
    else '0' :: '.' :: List.replicate (e + 1 - digits.length) '0' ++ digits

/-- Digits with the point behind the first one, and an exponent. -/
def setExponent (plus : Bool) (digits : List Char) (exponent : Int) : List Char :=
  let sign := if exponent < 0 then ['-'] else if plus then ['+'] else []
  let power := sign ++ Nat.toDigits 10 exponent.natAbs
  match digits with
  | [] => []
  | [d] => d :: 'e' :: power
  | d :: ds => d :: '.' :: ds ++ 'e' :: power

variable (layout : Layout)

/-- Whether a number of this decimal exponent is written positionally. -/
def isPositional (exponent : Int) : Bool :=
  match layout.positional with
  | none => true
  | some (least, greatest) => least ≤ exponent && exponent ≤ greatest

/-- The text of a finite magnitude. -/
def magnitude (p : Nat) : List Char :=
  if p = 0 then setPoint layout.point ['0'] 0
  else
    let (value, exponent) := Decimal.shortest layout.tie p
    let digits := Nat.toDigits 10 value
    let leading := exponent + digits.length - 1
    if layout.isPositional leading then setPoint layout.point digits exponent
    else setExponent layout.plus digits leading

/-- The text of a double. -/
def render (x : Float) : String :=
  let p := Binary64.pattern x
  if Binary64.infinity < p then layout.nan
  else
    let sign := if Binary64.isNegative x then ['-'] else []
    .ofList (sign ++ if p = Binary64.infinity then ['i', 'n', 'f'] else layout.magnitude p)

end Layout

end ItemScoring
