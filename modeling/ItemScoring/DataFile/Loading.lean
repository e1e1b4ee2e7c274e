import ItemScoring.DataFile.Error
import ItemScoring.Log
import ItemScoring.Text.Quoted

/-!
# Loading data files

`InputData.load` reads a data file and turns the columns that a prediction needs
into a dataset.  Required columns must be there, complete, numeric and finite;
the others are carried in the frame as they are, whatever they hold.
-/

namespace ItemScoring

namespace CellKind

/-- The number in a cell: integers are rounded to the nearest double, truth values
are one and zero, and texts are read as decimals. -/
def number? : (kind : CellKind) → kind.Value → Option Float
  | boolean, value => some (if (show Bool from value) then 1 else 0)
  | integer, value => some (Binary64.ofInt value)
  | float, value => some value
  | text, value => Decimal.floatOfText? value

end CellKind

namespace FrameColumn

/-- The numbers in a column.  Of several faults the first one in the order empty
cell, text, value that is not finite is reported, wherever they stand. -/
def numbers (column : FrameColumn) : Except DataError (Array Float) :=
  match column.cells.mapM id with
  | none => .error (.missingValuesFound column.name)
  | some values =>
    match values.mapM column.kind.number? with
    | none => .error (.columnWrongType column.name)
    | some numbers =>
      if numbers.all Float.isFinite then .ok numbers.toArray
      else .error (.nonFiniteValuesFound column.name)

end FrameColumn

namespace Frame

/-- The column of a name as a column of a dataset. -/
def required (frame : Frame) (name : String) : Except DataError Column :=
  match frame.column? name with
  | none => .error (.columnNotFound name)
  | some column => column.numbers.map fun values => { name, values }

/-- The dataset of the required columns, each once, in the order in which they are
first named. -/
def datasetOf (frame : Frame) (names : List String) : Except DataError Dataset := do
  let columns ← names.eraseDups.mapM frame.required
  (Dataset.ofColumns columns).mapError .dataset

end Frame

/-- What is loaded from a data file. -/
structure InputData where
  frame : Frame
  dataset : Dataset

namespace InputData

/-- Why a data file cannot be opened.  A directory can be, but holds no frame. -/
def openingError : FileError → DataError
  | .directory => .directory
  | error => .file error

/-- Loads a data file with the required columns. -/
def load (content : FileContent) (required : List String) : Except DataError InputData := do
  let bytes ← content.mapError openingError
  let frame ← (Frame.ofTsv bytes).mapError .unreadable
  let dataset ← frame.datasetOf required
  return { frame, dataset }

/-- What the log says before a file is read. -/
def openingEntry (path : String) : LogEntry := ⟨.info, s!"Loading data from '{path}'"⟩

/-- What the log says about data that were loaded. -/
def loadedEntry (data : InputData) : LogEntry :=
  ⟨.info, s!"Loaded {data.frame.height} records; " ++
    s!"validated columns: {Text.quoteList data.dataset.names}"⟩

/-- What the log says about loading a file. -/
def log (path : String) (data : InputData) : List LogEntry := [openingEntry path, data.loadedEntry]

end InputData

end ItemScoring
