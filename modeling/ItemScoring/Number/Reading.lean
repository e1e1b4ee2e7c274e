import ItemScoring.Number.Decimal

/-!
# Reading decimal numbers

The numbers of a data file: an optional sign, digits with an optional point
among them or at either end, and an optional exponent; or one of the words for
infinity and for a value that is not a number, in any case of letters.  Nothing
may stand before or behind the number.
-/

namespace ItemScoring.Decimal

/-- Splits off an optional sign and tells whether it was a minus. -/
def splitSign : List Char → Bool × List Char
  | '-' :: cs => (true, cs)
  | '+' :: cs => (false, cs)
  | cs => (false, cs)

/-- Splits off the longest run of digits. -/
def splitDigits (cs : List Char) : List Char × List Char := cs.span Char.isDigit

/-- Splits off a point and the digits behind it, if there is a point. -/
def splitFraction : List Char → List Char × List Char
  | '.' :: cs => splitDigits cs
  | cs => ([], cs)

/-- The power of ten that a whole exponent part stands for; nothing is the power
zero. -/
def power? : List Char → Option Int
  | [] => some 0
  | e :: cs =>
    if e = 'e' ∨ e = 'E' then
      let (negative, cs) := splitSign cs
      if cs.isEmpty ∨ ¬ cs.all Char.isDigit then none
      else
        let value : Int := valueOfDigits cs
        some (if negative then -value else value)
    else none

/-- Reads an unsigned decimal. -/
def ofUnsigned? (negative : Bool) (cs : List Char) : Option Decimal :=
  let (whole, cs) := splitDigits cs
  let (fraction, cs) := splitFraction cs
  if whole.isEmpty ∧ fraction.isEmpty then none
  else (power? cs).map (ofParts negative whole fraction)

/-- Reads the words for values that are not finite. -/
def specialOfWord? (negative : Bool) (cs : List Char) : Option Float :=
  let word := String.ofList (cs.map Char.toLower)
  if word = "nan" then some (Binary64.ofPattern negative Binary64.notANumber)
  else if word = "inf" ∨ word = "infinity" then
    some (Binary64.ofPattern negative Binary64.infinity)
  else none

/-- Reads a number of a data file. -/
def floatOfText? (text : String) : Option Float :=
  let (negative, cs) := splitSign text.toList
  match ofUnsigned? negative cs with
  | some x => some x.toFloat
  | none => specialOfWord? negative cs

end ItemScoring.Decimal
