import ItemScoring.Prediction.Basic

/-!
# Sessions

A session works on one dataset: a step appends a column of its own or the columns
of a prediction.  A step that is refused leaves the dataset as it was.
-/

namespace ItemScoring

/-- A step of a session. -/
inductive SessionStep
  | push (column : Column)
  | predict (options : PredictionOptions)
deriving Repr

/-- What a step of a session has come to. -/
inductive StepOutcome
  | pushed
  | pushRefused (error : DatasetError)
  | predicted (predictions : Predictions)
  | predictionRefused (error : PredictionError)

namespace Model

/-- Carries out a step: its outcome, and the dataset from then on. -/
def runStep (model : Model) (data : Dataset) : SessionStep → StepOutcome × Dataset
  | .push column =>
    match data.push column with
    | .ok next => (.pushed, next)
    | .error error => (.pushRefused error, data)
  | .predict options =>
    match model.predict data options with
    | .ok predictions => (.predicted predictions, predictions.dataset)
    | .error error => (.predictionRefused error, data)

/-- Carries out steps one after the other: the outcome of each with the dataset
after it. -/
def runSession (model : Model) (data : Dataset) :
    List SessionStep → List (StepOutcome × Dataset)
  | [] => []
  | step :: rest =>
    let result := model.runStep data step
    result :: model.runSession result.2 rest

end Model

end ItemScoring
