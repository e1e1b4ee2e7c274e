import ItemScoring.Dataset

/-!
# Why a prediction is refused
-/

namespace ItemScoring

/-- Why a model cannot be applied to a dataset. -/
inductive PredictionError
  | missingColumn (name : String)
  /-- A derived column would have the name of a column that is there. -/
  | outputColumnExists (name : String)
  /-- A column that an item needs has no value in a row, or is absent from the
  whole dataset. -/
  | unresolvedVariable (item : Nat) (column : String) (row : Option Nat)
  | nonFiniteValue (column : String) (row : Nat)
  /-- The derived columns cannot be appended. -/
  | dataset (error : DatasetError)
deriving Repr, DecidableEq

namespace PredictionError

/-- The words for where a column has no value. -/
def describeRow : Option Nat → String
  | some row => s!" in row {row}"
  | none => " in the dataset"

/-- The wording of the error. -/
def message : PredictionError → String
  | missingColumn name =>
    s!"The required column '{name}' was not found in the dataset. " ++
      "Please check spelling and case."
  | outputColumnExists name =>
    s!"Output column '{name}' already exists in the dataset and would be overwritten."
  | unresolvedVariable item column row =>
    s!"Item {item}: column '{column}' could not be resolved{describeRow row}."
  | nonFiniteValue column row =>
    s!"Non-finite value (NaN or Infinity) in column '{column}' at row {row}. " ++
      "All inputs to the equations must be finite."
  | dataset error => s!"Failed to attach prediction columns: {error.message}"

end PredictionError

end ItemScoring
