import ItemScoring.Tsv.Piece

/-!
# Rows and fields of a data file

Tabs cut a row into fields, and a line feed ends it.  A field that starts with a
quote is quoted: until its quotes are even in number, tabs and line feeds belong to
it.  In any other field a quote has no meaning.

Rows are not the lines of `ItemScoring.Tsv.Line`, for which every quote counts; a
file in which they differ in number is refused.
-/

namespace ItemScoring.Tsv

/-- Where a field stands while it is read. -/
inductive FieldState
  | start
  /-- The field does not start with a quote. -/
  | plain
  /-- The field starts with a quote; `odd` tells whether it has an odd number of
  quotes so far. -/
  | quoted (odd : Bool)
deriving Repr, DecidableEq

namespace FieldState

/-- Whether the field may end here. -/
def mayEnd : FieldState → Bool
  | quoted odd => !odd
  | _ => true

/-- The state after one more byte of the field. -/
def next (byte : UInt8) : FieldState → FieldState
  | start => if byte = quote then quoted true else plain
  | plain => plain
  | quoted odd => quoted (odd != (byte == quote))

end FieldState

/-- The fields of a row, of which there is at least one. -/
structure Row where
  first : Piece
  others : List Piece
  /-- Whether a line feed ends the row; otherwise the text ends with it. -/
  ended : Bool
deriving Repr, DecidableEq

namespace Row

/-- The row of an empty field. -/
def blank (ended : Bool) : Row := { first := [], others := [], ended }

/-- The fields from left to right. -/
def fields (row : Row) : List Piece := row.first :: row.others

/-- The row with one more byte in front of its first field. -/
def extend (byte : UInt8) (row : Row) : Row := { row with first := byte :: row.first }

/-- The row with an empty field in front of the others. -/
def behindTab (row : Row) : Row := { row with first := [], others := row.fields }

/-- The cells of a row.  A tab at the very end of a text begins no cell. -/
def cells (row : Row) : List Piece :=
  if ¬ row.ended ∧ row.fields.getLast? = some [] then row.fields.dropLast else row.fields

end Row

/-- The rest of a row from within a field, and the rows behind it. -/
def rowsFrom (state : FieldState) : Piece → Row × List Row
  | [] => (.blank false, [])
  | byte :: bytes =>
    if state.mayEnd ∧ byte = tab then
      let (row, rows) := rowsFrom .start bytes
      (row.behindTab, rows)
    else if state.mayEnd ∧ byte = lineFeed then
      let (row, rows) := rowsFrom .start bytes
      (.blank true, if bytes.isEmpty then [] else row :: rows)
    else
      let (row, rows) := rowsFrom (state.next byte) bytes
      (row.extend byte, rows)

/-- The first row of a text. -/
def firstRow (text : Piece) : Row := (rowsFrom .start text).1

/-- The rows of a text.  Behind the last line feed there is no row. -/
def cutRows (text : Piece) : List Row :=
  if text.isEmpty then []
  else
    let (row, rows) := rowsFrom .start text
    row :: rows

end ItemScoring.Tsv
