import ItemScoring.Frame
import ItemScoring.Number.Layout
import ItemScoring.Number.Reading
import ItemScoring.Text.Decoding
import ItemScoring.Tsv.Piece

/-!
# Cells of a data file

How cells of each kind are read and written.  Reading takes more than writing
produces: any case of letters, a plus, zeros in front, blanks in front of numbers,
and quotes that are not needed.
-/

namespace ItemScoring

namespace Tsv

/-! ### Quotes within texts -/

/-- Halves doubled quotes and drops single ones. -/
def unquote : List Char → List Char
  | '"' :: '"' :: cs => '"' :: unquote cs
  | c :: cs => if c = '"' then unquote cs else c :: unquote cs
  | [] => []

/-- Doubles quotes. -/
def doubleQuotes : List Char → List Char
  | [] => []
  | c :: cs => if c = '"' then '"' :: '"' :: doubleQuotes cs else c :: doubleQuotes cs

/-! ### Reading -/

/-- The words for truth values, in any case of ASCII letters. -/
def boolean? (cs : List Char) : Option Bool :=
  let word := cs.map Char.toLower
  if word = "true".toList then some true
  else if word = "false".toList then some false
  else none

/-- An integer of 64 bits: digits, perhaps behind a sign. -/
def integer? (cs : List Char) : Option Int :=
  let (negative, cs) := Decimal.splitSign cs
  if cs.isEmpty ∨ ¬ cs.all Char.isDigit then none
  else
    let magnitude : Int := Decimal.valueOfDigits cs
    let value := if negative then -magnitude else magnitude
    if Decimal.isInt64 value then some value else none

/-- Drops blanks in front. -/
def dropBlanks (cs : List Char) : List Char := cs.dropWhile fun c => c == ' ' || c == '\t'

/-- A value that is no text.  Quotes around it do not matter, those between them
are not halved, and without any character the cell is empty. -/
def bare? {α : Type} (read : List Char → Option α) (field : Piece) : Option (Option α) :=
  match Text.whole? (Text.decode (strip field)) with
  | none => none
  | some [] => some none
  | some cs => (read cs).map some

/-- A number, blanks in front of it aside; blanks alone are an empty cell. -/
def number? {α : Type} (read : List Char → Option α) (field : Piece) : Option (Option α) :=
  match Text.whole? (Text.decode (strip field)) with
  | none => none
  | some cs =>
    match dropBlanks cs with
    | [] => some none
    | cs => (read cs).map some

/-- A text.  Quotes have to be around all of it or not in front of it. -/
def text? (field : Piece) : Option String :=
  if isEnclosed field then
    (Text.whole? (Text.decode (inner field))).map fun cs => .ofList (unquote cs)
  else if isQuoted field then none
  else (Text.whole? (Text.decode field)).map .ofList

end Tsv

namespace CellKind

open Tsv

/-- Reads a cell of a column of the given kind: `some none` is an empty cell, and
`none` says that the field does not fit the kind. -/
def read? : (kind : CellKind) → Piece → Option (Option kind.Value)
  | boolean, field => bare? boolean? field
  | integer, field => number? integer? field
  | float, field => number? (fun cs => Decimal.floatOfText? (.ofList cs)) field
  | text, field => if field.isEmpty then some none else (text? field).map some

end CellKind

/-! ### Writing -/

namespace Tsv

/-- Doubles have the fewest digits that read back and always a point; beyond 16
digits in front of it and 5 behind it they have an exponent. -/
def numbers : Layout where
  positional := some (-5, 15)
  point := true
  plus := false
  tie := .even
  nan := "NaN"

/-- Whether a text cannot stand without quotes. -/
def needsQuotes (cs : List Char) : Bool :=
  cs.isEmpty || cs.any fun c => c == '\t' || c == '"' || c == '\n' || c == '\r'

/-- A text as a field. -/
def encode (text : String) : String :=
  if needsQuotes text.toList then .ofList ('"' :: doubleQuotes text.toList ++ ['"'])
  else text

end Tsv

namespace CellKind

/-- The text of a cell that is not empty. -/
def write : (kind : CellKind) → kind.Value → String
  | boolean, value => if (show Bool from value) then "true" else "false"
  | integer, value => toString (show Int from value)
  | float, value => Tsv.numbers.render value
  | text, value => Tsv.encode value

end CellKind

end ItemScoring
