import ItemScoring.Frame
import ItemScoring.Text.Decoding
import ItemScoring.Text.DecimalDigit
import ItemScoring.Tsv.Piece

/-!
# Kinds of columns

A data file does not say of what kind its columns are.  The kind of a column is
guessed from the cells in its first rows: each cell that is not empty suggests a
kind by its form, and the suggestions are joined.

The guess looks at forms only.  It knows the digits of all scripts and no limits,
while a cell is read with ASCII digits and within limits (`ItemScoring.Tsv.Cell`);
a file in which the two differ is refused.
-/

namespace ItemScoring

namespace CellKind

/-- The kind of a column with cells of two kinds: integers among floats are
floats, any other two kinds make texts. -/
def join (first second : CellKind) : CellKind :=
  if first = second then first
  else match first, second with
    | integer, float => float
    | float, integer => float
    | _, _ => text

/-- The kind of a column with cells of the given kinds; texts if there are none. -/
def joinAll : List CellKind → CellKind
  | [] => text
  | first :: rest => rest.foldl join first

end CellKind

namespace Tsv

/-! ### Forms -/

/-- The small letter of a letter; the long s counts as an s. -/
def foldCase (c : Char) : Char := if c = 'ſ' then 's' else c.toLower

/-- The words for truth values, in any case of letters. -/
def isBooleanForm (cs : List Char) : Bool :=
  let word := cs.map foldCase
  word == "true".toList || word == "false".toList

/-- One digit or more. -/
def isDigits (cs : List Char) : Bool := !cs.isEmpty && cs.all Text.isDecimalDigit

/-- Digits, perhaps behind a minus. -/
def isIntegerForm : List Char → Bool
  | '-' :: cs => isDigits cs
  | cs => isDigits cs

/-- Drops a sign. -/
def dropSign : List Char → List Char
  | '-' :: cs => cs
  | '+' :: cs => cs
  | cs => cs

/-- A letter E and digits, perhaps with a sign between them. -/
def isExponentForm : List Char → Bool
  | c :: cs => (c == 'e' || c == 'E') && isDigits (dropSign cs)
  | [] => false

/-- Digits around a point with at least one behind it, and perhaps an exponent;
digits and an exponent; digits and a point; or a word.  All perhaps behind a sign. -/
def isFloatForm (cs : List Char) : Bool :=
  let cs := dropSign cs
  let whole := cs.takeWhile Text.isDecimalDigit
  match cs.dropWhile Text.isDecimalDigit with
  | '.' :: cs =>
    let fraction := cs.takeWhile Text.isDecimalDigit
    let power := cs.dropWhile Text.isDecimalDigit
    if fraction.isEmpty then !whole.isEmpty && power.isEmpty
    else power.isEmpty || isExponentForm power
  | power =>
    !whole.isEmpty && isExponentForm power || cs == "inf".toList || cs == "NaN".toList

/-- The kind that a text suggests. -/
def kindOfText (cs : List Char) : CellKind :=
  if isBooleanForm cs then .boolean
  else if isFloatForm cs then .float
  else if isIntegerForm cs then .integer
  else .text

/-- The kind that a field suggests, quotes around it aside; none if it is empty. -/
def suggestion? (field : Piece) : Option CellKind :=
  if field.isEmpty then none
  else
    match Text.whole? (Text.decode (strip field)) with
    | some cs => some (kindOfText cs)
    | none => some .text

end Tsv

end ItemScoring
