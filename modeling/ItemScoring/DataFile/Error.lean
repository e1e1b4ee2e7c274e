import ItemScoring.Dataset
import ItemScoring.File
import ItemScoring.Tsv.Reading

/-!
# Why a data file is refused
-/

namespace ItemScoring

/-- Why a data file cannot be loaded, or predictions not be written. -/
inductive DataError
  | unreadable (error : TsvError)
  /-- A directory stands in the place of the data file. -/
  | directory
  /-- A derived column does not fit the frame. -/
  | unfit (error : FrameError)
  | file (error : FileError)
  | columnNotFound (name : String)
  | columnWrongType (name : String)
  | missingValuesFound (name : String)
  | nonFiniteValuesFound (name : String)
  /-- A derived column would have the name of a column of the frame. -/
  | outputColumnExists (name : String)
  | dataset (error : DatasetError)
deriving Repr, DecidableEq

namespace DataError

/-- What stands in front of every message about the shape of a frame. -/
def describeFrame (text : String) : String :=
  s!"Error from the underlying Polars DataFrame library: {text}"

/-- The wording of the error. -/
def message : DataError → String
  | unreadable error => describeFrame error.message
  | directory => describeFrame "the file is a directory"
  | unfit error => describeFrame error.message
  | file error => s!"IO error: {error.message}"
  | columnNotFound name =>
    s!"The required column '{name}' was not found in the input file. " ++
      "Please check spelling and case."
  | columnWrongType name =>
    s!"The required column '{name}' could not be converted to the expected type " ++
      "'f64 (numeric)'. It contains non-numeric data. (Found type: String)"
  | missingValuesFound name =>
    s!"Missing or null values were found in the required column '{name}'. " ++
      "This tool requires complete data with no missing values."
  | nonFiniteValuesFound name =>
    s!"Non-finite values (NaN or Infinity) were found in the required column '{name}'. " ++
      "This tool requires all data to be finite."
  | outputColumnExists name =>
    s!"Output column '{name}' already exists in the input file and would be overwritten."
  | dataset error => s!"Failed to assemble the dataset: {error.message}"

end DataError

end ItemScoring
