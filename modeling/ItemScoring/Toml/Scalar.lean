import ItemScoring.Number.Decimal
import ItemScoring.Toml.Value

/-!
# TOML numbers, truth values and moments

Digits may be grouped by underscores, one between two digits.  Decimal integers
carry no leading zeros; integers in base sixteen, eight and two have a lower-case
sign for the base and no sign.  Integers must fit into 64 bits, and a finite
number must not round to infinity.

What starts like a date or a time is read as one and nothing else.
-/

namespace ItemScoring.Toml

/-! ### Digits -/

/-- Reads the digits behind a first one.  An underscore must stand between two
digits. -/
def moreDigits (isDigit : Char → Bool) : Reader (List Char)
  | '_' :: c :: cs =>
    if isDigit c then
      (moreDigits isDigit cs).map fun (digits, rest) => (c :: digits, rest)
    else none
  | ['_'] => none
  | c :: cs =>
    if isDigit c then
      (moreDigits isDigit cs).map fun (digits, rest) => (c :: digits, rest)
    else some ([], c :: cs)
  | [] => some ([], [])

/-- Reads at least one digit. -/
def digits (isDigit : Char → Bool) : Reader (List Char)
  | c :: cs =>
    if isDigit c then
      (moreDigits isDigit cs).map fun (digits, rest) => (c :: digits, rest)
    else none
  | [] => none

/-- Reads the digits of a decimal integer: zero alone, or no zero in front. -/
def wholeDigits : Reader (List Char)
  | '0' :: cs => some (['0'], cs)
  | cs => digits Char.isDigit cs

/-- Reads a sign, if there is one: whether it is there, and whether it is a
minus. -/
def sign : List Char → (Bool × Bool) × List Char
  | '-' :: cs => ((true, true), cs)
  | '+' :: cs => ((true, false), cs)
  | cs => ((false, false), cs)

/-! ### Integers -/

/-- An integer that fits into 64 bits. -/
def integer? (n : Int) : Option Value :=
  if Decimal.isInt64 n then some (.integer n) else none

/-- The value of a digit in bases up to sixteen. -/
def digitValue (c : Char) : Nat :=
  if c.isDigit then c.toNat - '0'.toNat
  else if 'a' ≤ c then c.toNat - 'a'.toNat + 10
  else c.toNat - 'A'.toNat + 10

/-- The number that digits stand for in a base. -/
def valueInBase (base : Nat) (cs : List Char) : Nat :=
  cs.foldl (fun value c => base * value + digitValue c) 0

/-- Whether a character is a digit in base sixteen. -/
def isHexDigit (c : Char) : Bool :=
  c.isDigit ∨ ('a' ≤ c ∧ c ≤ 'f') ∨ ('A' ≤ c ∧ c ≤ 'F')

/-- Reads the digits of an integer in a base. -/
def basedInteger (base : Nat) (isDigit : Char → Bool) (cs : List Char) :
    Option (Value × List Char) := do
  let (ds, rest) ← digits isDigit cs
  let value ← integer? (valueInBase base ds)
  return (value, rest)

/-! ### Decimal numbers -/

/-- Reads an exponent, if there is one. -/
def power : Reader (Option Int)
  | [] => some (none, [])
  | c :: cs =>
    if c = 'e' ∨ c = 'E' then do
      let ((_, negative), cs) := sign cs
      let (ds, rest) ← digits Char.isDigit cs
      let value : Int := Decimal.valueOfDigits ds
      return (some (if negative then -value else value), rest)
    else some (none, c :: cs)

/-- Reads a point and the digits behind it, if there is a point. -/
def fraction : Reader (Option (List Char))
  | '.' :: cs => (digits Char.isDigit cs).map fun (ds, rest) => (some ds, rest)
  | cs => some (none, cs)

/-- The number written with these parts: an integer if there is neither a point nor
an exponent. -/
def numberOfParts (negative : Bool) (whole : List Char) :
    (fraction : Option (List Char)) → (power : Option Int) → Option Value
  | none, none =>
    let value : Int := Decimal.valueOfDigits whole
    integer? (if negative then -value else value)
  | fraction, power =>
    let x := (Decimal.ofParts negative whole (fraction.getD []) (power.getD 0)).toFloat
    if x.isFinite then some (.float x) else none

/-- Reads a decimal number behind its sign. -/
def decimalNumber (negative : Bool) (cs : List Char) : Option (Value × List Char) := do
  let (whole, cs) ← wholeDigits cs
  let (part, cs) ← fraction cs
  let (exponent, rest) ← power cs
  let value ← numberOfParts negative whole part exponent
  return (value, rest)

/-- Reads a number. -/
def number (cs : List Char) : Option (Value × List Char) :=
  match sign cs with
  | ((false, _), '0' :: 'x' :: cs) => basedInteger 16 isHexDigit cs
  | ((false, _), '0' :: 'o' :: cs) => basedInteger 8 (fun c => '0' ≤ c ∧ c ≤ '7') cs
  | ((false, _), '0' :: 'b' :: cs) => basedInteger 2 (fun c => c = '0' ∨ c = '1') cs
  | ((_, negative), 'i' :: 'n' :: 'f' :: cs) =>
    some (.float (Binary64.ofPattern negative Binary64.infinity), cs)
  | ((_, negative), 'n' :: 'a' :: 'n' :: cs) =>
    some (.float (Binary64.ofPattern negative Binary64.notANumber), cs)
  | ((_, negative), cs) => decimalNumber negative cs

/-! ### Moments -/

/-- Reads exactly `count` digits. -/
def fixedDigits (count : Nat) (cs : List Char) : Option (Nat × List Char) :=
  let ds := cs.take count
  if ds.length = count ∧ ds.all Char.isDigit then
    some (Decimal.valueOfDigits ds, cs.drop count)
  else none

/-- Takes one given character. -/
def expect (c : Char) : List Char → Option (List Char)
  | d :: cs => if d = c then some cs else none
  | [] => none

/-- The number of days of a month. -/
def daysOfMonth (year month : Nat) : Nat :=
  if month = 2 then
    if year % 4 = 0 ∧ (year % 100 ≠ 0 ∨ year % 400 = 0) then 29 else 28
  else if month = 4 ∨ month = 6 ∨ month = 9 ∨ month = 11 then 30
  else 31

/-- Reads a date of the calendar. -/
def date? (cs : List Char) : Option (List Char) := do
  let (year, cs) ← fixedDigits 4 cs
  let cs ← expect '-' cs
  let (month, cs) ← fixedDigits 2 cs
  let cs ← expect '-' cs
  let (day, cs) ← fixedDigits 2 cs
  guard (1 ≤ month ∧ month ≤ 12 ∧ 1 ≤ day ∧ day ≤ daysOfMonth year month)
  return cs

/-- Reads parts of a second, if there are any. -/
def skipSecondFraction : List Char → List Char
  | '.' :: c :: cs => if c.isDigit then cs.dropWhile Char.isDigit else '.' :: c :: cs
  | cs => cs

/-- Reads a time of the day. -/
def time? (cs : List Char) : Option (List Char) := do
  let (hour, cs) ← fixedDigits 2 cs
  let cs ← expect ':' cs
  let (minute, cs) ← fixedDigits 2 cs
  let cs ← expect ':' cs
  let (second, cs) ← fixedDigits 2 cs
  guard (hour ≤ 23 ∧ minute ≤ 59 ∧ second ≤ 60)
  return skipSecondFraction cs

/-- Reads the distance from universal time, if it is given. -/
def skipOffset : List Char → Option (List Char)
  | [] => some []
  | c :: cs =>
    if c = 'Z' ∨ c = 'z' then some cs
    else if c = '+' ∨ c = '-' then do
      let (hour, cs) ← fixedDigits 2 cs
      let cs ← expect ':' cs
      let (minute, cs) ← fixedDigits 2 cs
      guard (hour ≤ 23 ∧ minute ≤ 59)
      return cs
    else some (c :: cs)

/-- Reads a time behind a date, if there is one. -/
def timeOfDate : List Char → Option (List Char)
  | [] => some []
  | c :: cs =>
    if c = 'T' ∨ c = 't' ∨ c = ' ' then
      match time? cs with
      | some rest => skipOffset rest
      | none => some (c :: cs)
    else some (c :: cs)

/-- Whether the characters ahead can only be a date or a time. -/
def startsMoment (cs : List Char) : Bool :=
  (((fixedDigits 4 cs).map Prod.snd).bind (expect '-')).isSome ||
    (((fixedDigits 2 cs).map Prod.snd).bind (expect ':')).isSome

/-- Reads a date, a time, or both. -/
def moment (cs : List Char) : Option (Value × List Char) := do
  let rest ← (date? cs).elim (time? cs) timeOfDate
  return (.moment (.ofList (cs.take (cs.length - rest.length))), rest)

/-! ### Scalars -/

/-- Reads a number, a truth value or a moment. -/
def scalar : Reader Value
  | 't' :: 'r' :: 'u' :: 'e' :: cs => some (.boolean true, cs)
  | 'f' :: 'a' :: 'l' :: 's' :: 'e' :: cs => some (.boolean false, cs)
  | cs => if startsMoment cs then moment cs else number cs

end ItemScoring.Toml
