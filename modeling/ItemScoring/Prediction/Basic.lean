import ItemScoring.Number.Places
import ItemScoring.Prediction.Equation
import ItemScoring.Prediction.Error
import ItemScoring.Prediction.Logistic
import ItemScoring.Prediction.Naming

/-!
# Predictions

`Model.predict` evaluates the equation of every item on every row of a dataset.
Per item it yields the linear predictors, the probabilities and the classes, and
it appends them to the dataset as three columns.

Everything that could go wrong is looked for first: absent columns and names
that are taken, item by item, then values that are not finite.  What is left is a
clash of two derived names, which shows when the columns are appended.  A
prediction that is refused yields nothing; the dataset is a value and stays what
it was.
-/

namespace ItemScoring

/-- What a prediction is to read and how it names its columns. -/
structure PredictionOptions where
  totalScore : String
  naming : ColumnNaming := {}
deriving Repr, DecidableEq

/-- The results of one item, with one value per row. -/
structure ItemPrediction where
  item : Nat
  columns : DerivedColumns
  linear : Array Float
  probability : Array Float
  positive : Array Bool
deriving Repr, DecidableEq

namespace ItemPrediction

variable (prediction : ItemPrediction)

/-- The share of rows that are classified as positive; zero without rows. -/
def positiveRate : Float :=
  if prediction.positive.isEmpty then 0
  else Float.ofNat (prediction.positive.count true) / Float.ofNat prediction.positive.size

/-- The three columns that an item adds to a dataset. -/
def derived : List Column := [
  { name := prediction.columns.linear, values := prediction.linear },
  { name := prediction.columns.probability, values := prediction.probability },
  { name := prediction.columns.prediction,
    values := prediction.positive.map fun positive => Float.ofNat (classNumber positive) }]

end ItemPrediction

/-- The outcome of applying a model to a dataset. -/
structure Predictions where
  /-- One equation per item, in item order. -/
  equations : List ItemEquation
  /-- The results of one item each, in item order. -/
  items : List ItemPrediction
  dataset : Dataset

namespace Predictions

/-- The label and the rendered equation of every item, in item order. -/
def renderedEquations (predictions : Predictions) : List (String × String) :=
  predictions.equations.map ItemEquation.rendered

end Predictions

/-! ### Checks -/

/-- The columns of an item must be there, and its derived names must not be
taken. -/
def Item.checkColumns (data : Dataset) (naming : ColumnNaming) (item : Item) :
    Except PredictionError Unit :=
  match item.columns.find? fun name => !data.hasColumn name with
  | some column => .error (.unresolvedVariable item.number column none)
  | none =>
    match (naming.forItem item.number).names.find? data.hasColumn with
    | some name => .error (.outputColumnExists name)
    | none => .ok ()

/-- A column that the equations read must be finite in every row: a value that is
not a number would fail both tests of a split and select no leaf. -/
def Dataset.checkFinite (data : Dataset) (name : String) : Except PredictionError Unit :=
  match data.values? name with
  | none => .ok ()
  | some values =>
    match values.findIdx? fun value => !value.isFinite with
    | some row => .error (.nonFiniteValue name row)
    | none => .ok ()

namespace Model

variable (model : Model)

/-- The columns that the equations read, each once. -/
def inputs (totalScore : String) : List String :=
  (totalScore :: model.splitColumns).eraseDups

/-- Everything that is checked before any equation is evaluated. -/
def checkInputs (data : Dataset) (options : PredictionOptions) : Except PredictionError Unit := do
  unless data.hasColumn options.totalScore do throw (.missingColumn options.totalScore)
  model.items.forM (Item.checkColumns data options.naming)
  (model.inputs options.totalScore).forM data.checkFinite

end Model

/-! ### Evaluation -/

/-- The results of an item on every row of a dataset, with the given exponential
function. -/
def ItemEquation.evaluateWith (exp : Float → Float) (data : Dataset) (naming : ColumnNaming)
    (equation : ItemEquation) : Except PredictionError ItemPrediction :=
  match data.records.mapM equation.expression.evaluate with
  | .error (.unresolvedVariable column row) =>
    .error (.unresolvedVariable equation.item column (some row))
  | .ok values =>
    let linear := values.toArray
    let probability := linear.map (logisticWith exp)
    .ok {
      item := equation.item
      columns := naming.forItem equation.item
      linear
      probability
      positive := probability.map isPositive }

/-- The results of an item on every row of a dataset. -/
def ItemEquation.evaluate (data : Dataset) (naming : ColumnNaming) (equation : ItemEquation) :
    Except PredictionError ItemPrediction :=
  equation.evaluateWith Float.exp data naming

namespace Model

/-- Applies a model to every row of a dataset, with the given exponential function. -/
def predictWith (exp : Float → Float) (model : Model) (data : Dataset)
    (options : PredictionOptions) : Except PredictionError Predictions := do
  model.checkInputs data options
  let equations := model.equations options.totalScore
  let items ← equations.mapM (ItemEquation.evaluateWith exp data options.naming)
  match data.pushAll (items.flatMap ItemPrediction.derived) with
  | .ok dataset => return { equations, items, dataset }
  | .error error => throw (.dataset error)

/-- Applies a model to every row of a dataset. -/
def predict (model : Model) (data : Dataset) (options : PredictionOptions) :
    Except PredictionError Predictions :=
  model.predictWith Float.exp data options

/-- What the log says about a prediction: what is predicted, then the share of
positive rows item by item. -/
def predictionLog (model : Model) (data : Dataset) (predictions : Predictions) : List LogEntry :=
  let summary := s!"Predicting {model.itemCount} items ({model.difCount} with DIF, " ++
    s!"{model.itemCount - model.difCount} without) over {data.rowCount} records"
  let share (item : ItemPrediction) : LogEntry :=
    ⟨.debug, s!"Item {item.item}: {Places.render 1 (100 * item.positiveRate)}% " ++
      "of records classified positive"⟩
  ⟨.info, summary⟩ :: predictions.items.map share

end Model

end ItemScoring
