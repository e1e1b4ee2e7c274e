import ItemScoring.Proofs.Prediction.Inputs

/-!
# What a prediction holds row by row

A prediction that succeeds has passed the checks of its inputs, has evaluated every
equation on every row, and has appended the columns that came out
(`Model.predictWith_eq_ok_iff`).  Nothing else goes into its results: at every item and row
they are the value of the equation of the item on the record of the row, the probability
that the logistic function makes of it, and the class of that probability
(`Model.exists_scores`).

All of this holds whatever the exponential function.
-/

namespace ItemScoring

variable {exp : Float → Float} {data : Dataset}

/-! ### One item -/

/-- The results of an item at a row. -/
structure ItemPrediction.HasScores (prediction : ItemPrediction) (row : Nat)
    (linear probability : Float) (positive : Bool) : Prop where
  linear_eq : prediction.linear[row]? = some linear
  probability_eq : prediction.probability[row]? = some probability
  positive_eq : prediction.positive[row]? = some positive

theorem ItemEquation.evaluateWith_eq_ok_iff {naming : ColumnNaming} {equation : ItemEquation}
    {prediction : ItemPrediction} :
    equation.evaluateWith exp data naming = .ok prediction ↔
      data.records.mapM equation.expression.evaluate = .ok prediction.linear.toList ∧
        prediction.item = equation.item ∧ prediction.columns = naming.forItem equation.item ∧
        prediction.probability = prediction.linear.map (logisticWith exp) ∧
        prediction.positive = prediction.probability.map isPositive := by
  unfold evaluateWith
  cases data.records.mapM equation.expression.evaluate with
  | error e => cases e; simp
  | ok values =>
      simp only [Except.ok.injEq]
      constructor
      · intro heq
        subst heq
        exact ⟨rfl, rfl, rfl, rfl, rfl⟩
      · rintro ⟨rfl, hitem, hcolumns, hprobability, hpositive⟩
        -- The fields determine the prediction.
        cases prediction
        simp_all

/-- At every row an item holds the value of its equation there, with its probability and
class. -/
theorem ItemEquation.hasScores {naming : ColumnNaming} {equation : ItemEquation}
    {prediction : ItemPrediction} (h : equation.evaluateWith exp data naming = .ok prediction)
    {row : Nat} (hrow : row < data.rowCount) :
    ∃ n, equation.expression.evaluate (data.record row) = .ok n ∧
      prediction.HasScores row n (logisticWith exp n) (isPositive (logisticWith exp n)) := by
  obtain ⟨hvalues, -, -, hprobability, hpositive⟩ := evaluateWith_eq_ok_iff.mp h
  have hrecord : data.records[row]? = some (data.record row) := by
    simp [Dataset.records, hrow]
  obtain ⟨n, hn, heval⟩ := forall₂_getElem? (mapM_eq_ok.mp hvalues) hrecord
  have hlinear : prediction.linear[row]? = some n := by simpa using hn
  have hprob : prediction.probability[row]? = some (logisticWith exp n) := by
    rw [hprobability, Array.getElem?_map, hlinear, Option.map_some]
  have hclass : prediction.positive[row]? = some (isPositive (logisticWith exp n)) := by
    rw [hpositive, Array.getElem?_map, hprob, Option.map_some]
  exact ⟨n, heval, hlinear, hprob, hclass⟩

/-! ### All items -/

namespace Model

variable {model : Model} {options : PredictionOptions} {predictions : Predictions}

/-- A prediction succeeds in four steps, and consists of what they yield. -/
theorem predictWith_eq_ok_iff : model.predictWith exp data options = .ok predictions ↔
    model.checkInputs data options = .ok () ∧
      predictions.equations = model.equations options.totalScore ∧
      predictions.equations.mapM (ItemEquation.evaluateWith exp data options.naming) =
        .ok predictions.items ∧
      data.pushAll (predictions.items.flatMap ItemPrediction.derived) =
        .ok predictions.dataset := by
  unfold predictWith
  rw [check_bind_eq_ok]
  simp only [bind_eq_ok]
  constructor
  · rintro ⟨hinputs, items, hitems, hpush⟩
    split at hpush
    next dataset hdataset =>
      obtain rfl := Except.ok.inj hpush
      exact ⟨hinputs, rfl, hitems, hdataset⟩
    · contradiction
  · rintro ⟨hinputs, hequations, hitems, hpush⟩
    rw [hequations] at hitems
    refine ⟨hinputs, predictions.items, hitems, ?_⟩
    rw [hpush, ← hequations]
    rfl

/-- Every item of the model is evaluated, in order. -/
theorem exists_prediction (h : model.predictWith exp data options = .ok predictions) {i : Nat}
    {item : Item} (hitem : model.items[i]? = some item) :
    ∃ prediction, predictions.items[i]? = some prediction ∧
      (item.equation options.totalScore).evaluateWith exp data options.naming = .ok prediction := by
  obtain ⟨-, hequations, hitems, -⟩ := predictWith_eq_ok_iff.mp h
  have hequation : predictions.equations[i]? = some (item.equation options.totalScore) := by
    rw [hequations, equations, List.getElem?_map, hitem, Option.map_some]
  obtain ⟨prediction, hprediction, heval⟩ := forall₂_getElem? (mapM_eq_ok.mp hitems) hequation
  exact ⟨prediction, hprediction, heval⟩

theorem length_items (h : model.predictWith exp data options = .ok predictions) :
    predictions.items.length = model.itemCount := by
  obtain ⟨-, hequations, hitems, -⟩ := predictWith_eq_ok_iff.mp h
  rw [← (mapM_eq_ok.mp hitems).length_eq, hequations, equations, List.length_map, itemCount]

/-- The results of an item at a row are determined by its equation and the record of the
row. -/
theorem exists_scores (h : model.predictWith exp data options = .ok predictions) {i : Nat}
    {item : Item} (hitem : model.items[i]? = some item) {row : Nat} (hrow : row < data.rowCount) :
    ∃ prediction n, predictions.items[i]? = some prediction ∧
      (item.equation options.totalScore).expression.evaluate (data.record row) = .ok n ∧
      prediction.HasScores row n (logisticWith exp n) (isPositive (logisticWith exp n)) := by
  obtain ⟨prediction, hprediction, heval⟩ := exists_prediction h hitem
  obtain ⟨n, hn, hscores⟩ := ItemEquation.hasScores heval hrow
  exact ⟨prediction, n, hprediction, hn, hscores⟩

end Model

end ItemScoring
