import ItemScoring.Number.Layout

/-!
# A set number of places

Shares are reported with one digit behind the point.  The exact value of the
double is rounded, not its shortest decimal, and a half goes to the even
neighbour.
-/

namespace ItemScoring.Places

/-- A number of `10 ^ -places` set with that many digits behind the point. -/
def set (places count : Nat) : List Char :=
  if places = 0 then Nat.toDigits 10 count
  else Layout.setPoint false (Nat.toDigits 10 count) (-places)

/-- The text of a finite double with `places` digits behind the point. -/
def render (places : Nat) (x : Float) : String :=
  let (num, den) := Binary64.ratio (Binary64.pattern x)
  let sign := if Binary64.isNegative x then ['-'] else []
  .ofList (sign ++ set places (Binary64.roundHalfEven (num * Nat.pow 10 places) den))

end ItemScoring.Places
