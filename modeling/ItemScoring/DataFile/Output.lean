import ItemScoring.DataFile.Error
import ItemScoring.Prediction.Basic
import ItemScoring.Tsv.Writing

/-!
# Writing predictions

Predictions are written as the frame of the data file with three columns more per
item; equations as a list of labels and texts.  The frame has to be free of the
derived names, and as high as the predictions.  Predictions of a single row are
an exception: they fit every frame.
-/

namespace ItemScoring

namespace ItemPrediction

/-- The three columns of an item in a frame.  Classes are written as integers. -/
def frameColumns (prediction : ItemPrediction) : List FrameColumn := [
  { name := prediction.columns.linear
    kind := .float
    cells := prediction.linear.toList.map some },
  { name := prediction.columns.probability
    kind := .float
    cells := prediction.probability.toList.map some },
  { name := prediction.columns.prediction
    kind := .integer
    cells := prediction.positive.toList.map fun positive => some (classNumber positive : Int) }]

/-- Attaches the columns of an item to a frame, none of which may have one of the
`taken` names. -/
def attach (taken : List String) (frame : Frame) (prediction : ItemPrediction) :
    Except DataError Frame :=
  match prediction.columns.names.find? (taken.contains ·) with
  | some name => .error (.outputColumnExists name)
  | none => (prediction.frameColumns.foldlM Frame.withColumn frame).mapError .unfit

end ItemPrediction

namespace Predictions

variable (predictions : Predictions)

/-- The frame with the columns of all items. -/
def attach (frame : Frame) : Except DataError Frame :=
  predictions.items.foldlM (ItemPrediction.attach frame.names) frame

/-- The text of the file with the predictions. -/
def table (frame : Frame) : Except DataError String :=
  (predictions.attach frame).map Frame.toTsv

/-- The text of the file with the equations.  Labels and equations stand in it as
they are. -/
def equationTable : String :=
  String.join ("item\tequation\n" ::
    predictions.renderedEquations.map fun (label, equation) => s!"{label}\t{equation}\n")

end Predictions

end ItemScoring
