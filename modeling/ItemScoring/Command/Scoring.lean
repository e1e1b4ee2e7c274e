import ItemScoring.Command.Arguments
import ItemScoring.Command.Disk
import ItemScoring.DataFile.Loading
import ItemScoring.DataFile.Output
import ItemScoring.Model.File

/-!
# Commands

What the commands do, as scripts.  `predict` reads the model before the data and
writes nothing before all predictions are made; the file with the equations is
created last.  `equations` creates no file.
-/

namespace ItemScoring

namespace Model

/-- The columns that a data file must have. -/
def requiredColumns (model : Model) (totalScore : String) : List String :=
  totalScore :: model.splitColumns

end Model

namespace PredictArguments

/-- What a prediction is to read and how it names its columns. -/
def options (arguments : PredictArguments) : PredictionOptions where
  totalScore := arguments.totalScore
  naming := arguments.naming

end PredictArguments

namespace Script

/-- Creates a file and says so. -/
def saveAs (what path text : String) (next : Script) : Script :=
  save path text fun result =>
    attempt (fun error => (DataError.file error).message) result fun () =>
      print s!"{what} saved to: {path}" next

/-- Predicts item responses. -/
def predict (arguments : PredictArguments) : Script :=
  print s!"Loading model from: {arguments.model}" <|
  read arguments.model fun content =>
  log (Model.loadingLog content) <|
  attempt ModelFileError.message (Model.load content) fun model =>
  print s!"Model has {model.itemCount} items ({model.difCount} with DIF trees)" <|
  print s!"Loading data from: {arguments.data}" <|
  log [InputData.openingEntry arguments.data] <|
  read arguments.data fun content =>
  attempt DataError.message
    (InputData.load content (model.requiredColumns arguments.totalScore)) fun data =>
  log [data.loadedEntry] <|
  print s!"Loaded {data.dataset.rowCount} records" <|
  print "Generating predictions..." <|
  attempt PredictionError.message (model.predict data.dataset arguments.options) fun predictions =>
  log (model.predictionLog data.dataset predictions) <|
  attempt DataError.message (predictions.table data.frame) fun table =>
  saveAs "Predictions" arguments.output table <|
  match arguments.equations with
  | none => finish
  | some path => saveAs "Equations" path predictions.equationTable finish

/-- Prints item equations. -/
def equations (arguments : EquationsArguments) : Script :=
  read arguments.model fun content =>
  log (Model.loadingLog content) <|
  attempt ModelFileError.message (Model.load content) fun model =>
  printAll ((model.equations arguments.totalScore).map fun equation =>
    s!"{equation.label}: {equation.expression.render}") finish

/-- What a command does. -/
def ofCommand : Command → Script
  | .help => print Command.helpText finish
  | .predict arguments => predict arguments
  | .equations arguments => equations arguments

end Script

/-- A run of the program with the given arguments on a disk. -/
def Disk.runCommand (disk : Disk) (arguments : List String) : Outcome :=
  match Command.parse arguments with
  | .ok command => (Script.ofCommand command).run "" disk
  | .error error =>
    { status := .usage, output := "", shown := [], errors := errorLine error.message ++ "\n", disk }

end ItemScoring
