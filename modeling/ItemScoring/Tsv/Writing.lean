import ItemScoring.Tsv.Cell

/-!
# Writing data files

A frame is written with a line of names and a line for every row.  An empty cell
is an empty field.
-/

namespace ItemScoring

namespace FrameColumn

/-- The fields of a column from top to bottom. -/
def fields (column : FrameColumn) : List String :=
  column.cells.map fun cell =>
    match cell with
    | none => ""
    | some value => column.kind.write value

end FrameColumn

namespace Frame

/-- Puts columns of fields side by side, as rows from top to bottom. -/
def rowsOf (height : Nat) (columns : List (List String)) : List (List String) :=
  match height with
  | 0 => []
  | height + 1 =>
    columns.map (·.headD "") :: rowsOf height (columns.map List.tail)

/-- A line of a data file. -/
def line (fields : List String) : String := "\t".intercalate fields ++ "\n"

/-- The text of a data file. -/
def toTsv (frame : Frame) : String :=
  let rows := rowsOf frame.height (frame.columns.map FrameColumn.fields)
  String.join ((frame.names.map Tsv.encode :: rows).map line)

end Frame

end ItemScoring
