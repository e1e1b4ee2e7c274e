import ItemScoring.Proofs.Prediction.Reachable

/-!
# Sessions only append

A session hands one dataset on from step to step.  `StepLaw` says what a step may come to: it is
refused, and the dataset stays what it was, or it appends one column, or it appends the columns
of a prediction (`Predictions.AppendedTo`), three for each item, in item order.  There is nothing
in between: a prediction of which the last derived name is taken leaves none of its columns
behind.

`SessionLaw` has one step after the other obey this law.  Since every step only appends, each
dataset of a session is the beginning of all later ones (`Dataset.GrowsTo`), and names that are
there keep their values for good.
-/

namespace ItemScoring

variable {tables : ModelTables} {model : Model} {data next : Dataset}
  {options : PredictionOptions} {predictions : Predictions}

/-! ### Growing datasets -/

/-- The columns of the earlier dataset come first in the later one, in order, and every name
still has the values that it had. -/
structure Dataset.GrowsTo (earlier later : Dataset) : Prop where
  columns_prefix : earlier.columns.toList <+: later.columns.toList
  values?_eq : ∀ name ∈ earlier.names, later.values? name = earlier.values? name

namespace Dataset

theorem GrowsTo.subset_names {earlier later : Dataset} (h : earlier.GrowsTo later) :
    earlier.names ⊆ later.names := by
  have hnames : earlier.names <+: later.names := h.columns_prefix.map Column.name
  exact hnames.subset

theorem GrowsTo.refl (data : Dataset) : data.GrowsTo data where
  columns_prefix := List.prefix_refl _
  values?_eq := fun _ _ => rfl

theorem GrowsTo.trans {first second third : Dataset} (h : first.GrowsTo second)
    (h' : second.GrowsTo third) : first.GrowsTo third where
  columns_prefix := h.columns_prefix.trans h'.columns_prefix
  values?_eq := by
    intro name hname
    rw [h'.values?_eq name (h.subset_names hname), h.values?_eq name hname]

/-- Columns that are appended are not found in place of earlier ones. -/
theorem Consistent.growsTo_of_append {earlier later : Dataset} (h : earlier.Consistent)
    (h' : later.Consistent) {added : List Column}
    (hcolumns : later.columns.toList = earlier.columns.toList ++ added) :
    earlier.GrowsTo later where
  columns_prefix := hcolumns ▸ List.prefix_append _ _
  values?_eq := by
    intro name hname
    obtain ⟨position, hposition⟩ := List.mem_iff_getElem?.mp hname
    rw [getElem?_names, Option.map_eq_some_iff] at hposition
    obtain ⟨column, hcolumn, rfl⟩ := hposition
    have hlater : later.columns[position]? = some column := by
      rw [← Array.getElem?_toList] at hcolumn ⊢
      rw [hcolumns, List.getElem?_append_left (List.getElem?_eq_some_iff.mp hcolumn).1, hcolumn]
    rw [h'.values?_of_getElem? hlater, h.values?_of_getElem? hcolumn]

section Questions

variable {earlier later : Dataset} (hgrows : earlier.GrowsTo later)
include hgrows

/-- The first column of all says how many rows there are. -/
theorem GrowsTo.rowCount_eq (hcount : 0 < earlier.columnCount) :
    later.rowCount = earlier.rowCount := by
  have hfirst : later.columns[0]? = earlier.columns[0]? := by
    obtain ⟨added, hadded⟩ := hgrows.columns_prefix
    rw [← Array.getElem?_toList, ← hadded, List.getElem?_append_left hcount,
      Array.getElem?_toList]
  rw [rowCount, rowCount, hfirst]

theorem GrowsTo.value?_eq {name : String} (hname : name ∈ earlier.names) (row : Nat) :
    (later.record row).value? name = (earlier.record row).value? name := by
  rw [value?_record_eq, value?_record_eq, hgrows.values?_eq name hname]

end Questions

end Dataset

/-! ### One prediction -/

/-- The dataset of a prediction is the one that it was made on, with three columns behind it for
each item: its linear predictors, its probabilities, and its classes as zeros and ones.
Equations and results are listed in item order. -/
structure Predictions.AppendedTo (model : Model) (data : Dataset) (options : PredictionOptions)
    (predictions : Predictions) : Prop where
  equations_eq : predictions.equations = model.equations options.totalScore
  equationNumbers : predictions.equations.map ItemEquation.item = List.range' 1 model.itemCount
  itemNumbers : predictions.items.map ItemPrediction.item = List.range' 1 model.itemCount
  evaluated : List.Forall₂
    (fun equation item => equation.evaluate data options.naming = .ok item)
    predictions.equations predictions.items
  named : ∀ item ∈ predictions.items, item.columns = options.naming.forItem item.item
  sizes : ∀ item ∈ predictions.items, item.linear.size = data.rowCount ∧
    item.probability.size = data.rowCount ∧ item.positive.size = data.rowCount
  columns_eq : predictions.dataset.columns.toList = data.columns.toList ++
    predictions.items.flatMap fun item => [
      ⟨item.columns.linear, item.linear⟩,
      ⟨item.columns.probability, item.probability⟩,
      ⟨item.columns.prediction, item.positive.map fun positive => if positive then 1 else 0⟩]
  columnCount_eq : predictions.dataset.columnCount = data.columnCount + 3 * model.itemCount
  rowCount_eq : predictions.dataset.rowCount = data.rowCount

theorem ItemPrediction.derived_eq (prediction : ItemPrediction) : prediction.derived = [
    ⟨prediction.columns.linear, prediction.linear⟩,
    ⟨prediction.columns.probability, prediction.probability⟩,
    ⟨prediction.columns.prediction,
      prediction.positive.map fun positive => if positive then 1 else 0⟩] := by
  have hclass : (fun positive => Float.ofNat (classNumber positive)) =
      fun positive => if positive then 1 else 0 := by
    funext positive
    cases positive <;> rfl
  rw [derived, hclass]

/-- Every result of an item has one entry per row. -/
theorem ItemEquation.sizes_eq {naming : ColumnNaming} {equation : ItemEquation}
    {prediction : ItemPrediction} (h : equation.evaluate data naming = .ok prediction) :
    prediction.linear.size = data.rowCount ∧ prediction.probability.size = data.rowCount ∧
      prediction.positive.size = data.rowCount := by
  obtain ⟨hvalues, -, -, hprobability, hpositive⟩ := evaluateWith_eq_ok_iff.mp h
  have hlinear : prediction.linear.size = data.rowCount := by
    have hlength := (mapM_eq_ok.mp hvalues).length_eq
    rw [Dataset.records, List.length_map, List.length_range, Array.length_toList] at hlength
    exact hlength.symm
  have hprob : prediction.probability.size = data.rowCount := by
    rw [hprobability, Array.size_map, hlinear]
  exact ⟨hlinear, hprob, by rw [hpositive, Array.size_map, hprob]⟩

theorem forall₂_map_eq {α β γ : Type} {R : α → β → Prop} {f : α → γ} {g : β → γ} {as : List α}
    {bs : List β} (h : List.Forall₂ R as bs) (heq : ∀ a b, R a b → f a = g b) :
    as.map f = bs.map g := by
  induction h with
  | nil => rfl
  | cons hab hrest ih => rw [List.map_cons, List.map_cons, heq _ _ hab, ih]

theorem length_flatMap_derived (items : List ItemPrediction) :
    (items.flatMap ItemPrediction.derived).length = 3 * items.length := by
  induction items with
  | nil => rfl
  | cons first rest ih =>
      rw [List.flatMap_cons, List.length_append, ih, List.length_cons]
      simp only [ItemPrediction.derived, List.length_cons, List.length_nil]
      omega

theorem Model.map_item_equations (hmodel : Model.ofTables tables = .ok model)
    (totalScore : String) :
    (model.equations totalScore).map ItemEquation.item = List.range' 1 model.itemCount := by
  rw [equations, List.map_map, ← map_number_items hmodel]
  rfl

/-- What a prediction that succeeds has done. -/
theorem Model.appendedTo (hmodel : Model.ofTables tables = .ok model)
    (hpredict : model.predict data options = .ok predictions) :
    predictions.AppendedTo model data options := by
  obtain ⟨-, hequations, hitems, hpush⟩ := predictWith_eq_ok_iff.mp hpredict
  have hevaluated := mapM_eq_ok.mp hitems
  -- Each prediction is what an equation has come to.
  have hof : ∀ item ∈ predictions.items, ∃ equation : ItemEquation,
      equation.evaluate data options.naming = .ok item := by
    intro item hitem
    obtain ⟨i, hi⟩ := List.mem_iff_getElem?.mp hitem
    obtain ⟨equation, -, hequation⟩ := forall₂_getElem? hevaluated.flip hi
    exact ⟨equation, hequation⟩
  have hnumbers := map_item_equations hmodel options.totalScore
  rw [← hequations] at hnumbers
  have hsame : predictions.equations.map ItemEquation.item =
      predictions.items.map ItemPrediction.item :=
    forall₂_map_eq hevaluated fun equation item heval =>
      (ItemEquation.evaluateWith_eq_ok_iff.mp heval).2.1.symm
  have hcolumns := Dataset.columns_of_pushAll hpush
  refine ⟨hequations, hnumbers, hsame ▸ hnumbers, hevaluated, ?_, ?_, ?_, ?_, ?_⟩
  · intro item hitem
    obtain ⟨equation, hequation⟩ := hof item hitem
    obtain ⟨-, hnumber, hnames, -⟩ := ItemEquation.evaluateWith_eq_ok_iff.mp hequation
    rw [hnames, hnumber]
  · intro item hitem
    obtain ⟨equation, hequation⟩ := hof item hitem
    exact ItemEquation.sizes_eq hequation
  · rw [hcolumns]
    congr 2
    funext item
    exact item.derived_eq
  · have hlength := congrArg List.length hcolumns
    rw [List.length_append, length_flatMap_derived, length_items hpredict] at hlength
    exact hlength
  · refine Dataset.rowCount_of_pushAll hpush fun column hcolumn => ?_
    obtain ⟨item, hitem, hmem⟩ := List.mem_flatMap.mp hcolumn
    obtain ⟨equation, hequation⟩ := hof item hitem
    obtain ⟨hlinear, hprobability, hpositive⟩ := ItemEquation.sizes_eq hequation
    simp only [ItemPrediction.derived, List.mem_cons, List.not_mem_nil, or_false] at hmem
    rcases hmem with rfl | rfl | rfl
    · exact hlinear
    · exact hprobability
    · rw [Array.size_map, hpositive]

theorem Predictions.AppendedTo.names_eq (h : predictions.AppendedTo model data options) :
    (predictions.items.flatMap fun prediction => prediction.columns.names) =
      options.naming.derivedNames model.itemCount := by
  have hnames : (predictions.items.flatMap fun prediction => prediction.columns.names) =
      (predictions.items.map ItemPrediction.item).flatMap fun number =>
        (options.naming.forItem number).names := by
    rw [List.flatMap_map]
    exact List.flatMap_congr fun prediction hmem => by rw [h.named prediction hmem]
  rw [hnames, h.itemNumbers, List.range'_eq_map_range, List.flatMap_map,
    ColumnNaming.derivedNames]
  simp only [Nat.add_comm, names_forItem]

theorem Predictions.AppendedTo.dataset_names_eq (h : predictions.AppendedTo model data options) :
    predictions.dataset.names = data.names ++ options.naming.derivedNames model.itemCount := by
  rw [Dataset.names, h.columns_eq, List.map_append, List.map_flatMap, ← h.names_eq]
  rfl

/-! ### Whole sessions -/

/-- What a step may come to, and what it leaves behind: a step that is refused leaves the
dataset as it was, and all others append to it. -/
inductive StepLaw (model : Model) (data : Dataset) : SessionStep → StepOutcome → Dataset → Prop
  | pushed {column : Column} {next : Dataset} (accepted : data.push column = .ok next)
      (columns_eq : next.columns.toList = data.columns.toList ++ [column]) :
      StepLaw model data (.push column) .pushed next
  | pushRefused {column : Column} {error : DatasetError}
      (refused : data.push column = .error error) :
      StepLaw model data (.push column) (.pushRefused error) data
  | predicted {options : PredictionOptions} {predictions : Predictions}
      (accepted : model.predict data options = .ok predictions)
      (appended : predictions.AppendedTo model data options) :
      StepLaw model data (.predict options) (.predicted predictions) predictions.dataset
  | predictionRefused {options : PredictionOptions} {error : PredictionError}
      (refused : model.predict data options = .error error) :
      StepLaw model data (.predict options) (.predictionRefused error) data

/-- Every step of a session obeys the law, on the dataset that the one before it left. -/
inductive SessionLaw (model : Model) :
    Dataset → List SessionStep → List (StepOutcome × Dataset) → Prop
  | nil {data : Dataset} : SessionLaw model data [] []
  | cons {data next : Dataset} {step : SessionStep} {outcome : StepOutcome}
      {steps : List SessionStep} {results : List (StepOutcome × Dataset)}
      (first : StepLaw model data step outcome next) (rest : SessionLaw model next steps results) :
      SessionLaw model data (step :: steps) ((outcome, next) :: results)

theorem Model.stepLaw (hmodel : Model.ofTables tables = .ok model) (data : Dataset)
    (step : SessionStep) :
    StepLaw model data step (model.runStep data step).1 (model.runStep data step).2 := by
  -- Each step either appends or is refused with the dataset as it was.
  cases step with
  | push column =>
      cases hpush : data.push column with
      | ok next =>
          rw [runStep_pushed hpush]
          obtain ⟨-, -, rfl⟩ := Dataset.push_eq_ok_iff.mp hpush
          exact .pushed hpush (by rw [Dataset.withColumn, Array.toList_push])
      | error error =>
          rw [runStep_pushRefused hpush]
          exact .pushRefused hpush
  | predict options =>
      cases hpredict : model.predict data options with
      | ok predictions =>
          rw [runStep_predicted hpredict]
          exact .predicted hpredict (appendedTo hmodel hpredict)
      | error error =>
          rw [runStep_predictionRefused hpredict]
          exact .predictionRefused hpredict

/-- A step only appends. -/
theorem StepLaw.growsTo {step : SessionStep} {outcome : StepOutcome}
    (h : StepLaw model data step outcome next) (hdata : data.Consistent)
    (hnext : next.Consistent) : data.GrowsTo next := by
  cases h with
  | pushed accepted columns_eq => exact hdata.growsTo_of_append hnext columns_eq
  | pushRefused refused => exact .refl data
  | predicted accepted appended => exact hdata.growsTo_of_append hnext appended.columns_eq
  | predictionRefused refused => exact .refl data

theorem Model.runSession_cons (model : Model) (data : Dataset) (step : SessionStep)
    (steps : List SessionStep) : model.runSession data (step :: steps) =
      model.runStep data step :: model.runSession (model.runStep data step).2 steps := rfl

/-- A session is a sequence of steps that each append or change nothing, so that no column is
ever changed, moved or removed.  The dataset that it starts from is any that can come about
(`Dataset.Reachable.consistent`). -/
theorem session_appends (hmodel : Model.ofTables tables = .ok model) (hdata : data.Consistent)
    (steps : List SessionStep) : SessionLaw model data steps (model.runSession data steps) ∧
      (data :: (model.runSession data steps).map Prod.snd).Pairwise Dataset.GrowsTo := by
  induction steps generalizing data with
  | nil => exact ⟨.nil, List.pairwise_singleton _ _⟩
  | cons step steps ih =>
      have hstep := Model.stepLaw hmodel data step
      have hnext := hdata.runStep model step
      have hgrows := hstep.growsTo hdata hnext
      obtain ⟨hrest, hpairwise⟩ := ih hnext
      rw [Model.runSession_cons]
      refine ⟨.cons hstep hrest, ?_⟩
      rw [List.map_cons]
      refine List.pairwise_cons.mpr ⟨fun later hlater => ?_, hpairwise⟩
      -- The dataset grows to the next one, which grows to all later ones.
      rcases List.mem_cons.mp hlater with rfl | hlater
      · exact hgrows
      · exact hgrows.trans ((List.pairwise_cons.mp hpairwise).1 later hlater)

/-- A prediction whose second derived name is the first one again, a column of a taken name,
and a prediction that succeeds. -/
def clashSteps : List SessionStep := [
  .predict { totalScore := "score", naming := ⟨"q", "q", "r"⟩ },
  .push ⟨"age", #[1, 2]⟩,
  .predict { totalScore := "score" }]

/-- The two steps that are refused leave nothing behind, though one of them has appended a
column before it fails. -/
theorem session_appends_clashSteps : ∃ predictions,
    Model.ofTables ageTables = .ok ageModel ∧ ageData.Consistent ∧
    ageModel.runSession ageData clashSteps = [
      (.predictionRefused (.dataset (.duplicateColumn "q1")), ageData),
      (.pushRefused (.duplicateColumn "age"), ageData),
      (.predicted predictions, predictions.dataset)] ∧
    SessionLaw ageModel ageData clashSteps (ageModel.runSession ageData clashSteps) ∧
    ageData.GrowsTo predictions.dataset := by
  -- The inputs are ready, so the second derived name is what the prediction is refused for.
  have hclash : ageModel.predict ageData { totalScore := "score", naming := ⟨"q", "q", "r"⟩ } =
      .error (.dataset (.duplicateColumn "q1")) := by
    have hready : InputsReady ageTables ageData
        { totalScore := "score", naming := ⟨"q", "q", "r"⟩ } :=
      (Model.checkInputs_eq_ok_iff ofTables_ageTables consistent_ageData).mp (by decide +kernel)
    have hnames : ColumnNaming.derivedNames ⟨"q", "q", "r"⟩ ageTables.slopes.length =
        ["q1"] ++ "q1" :: ["r1", "q2", "q2", "r2"] := by decide +kernel
    exact ((Model.predict_of_ready ofTables_ageTables consistent_ageData hready).2 _).mpr
      ⟨_, _, _, hnames, by simp, by simp, rfl⟩
  have hpush : ageData.push ⟨"age", #[1, 2]⟩ = .error (.duplicateColumn "age") := rfl
  obtain ⟨predictions, hpredict⟩ := exists_predict_ageModel
  have hrun : ageModel.runSession ageData clashSteps = [
      (.predictionRefused (.dataset (.duplicateColumn "q1")), ageData),
      (.pushRefused (.duplicateColumn "age"), ageData),
      (.predicted predictions, predictions.dataset)] := by
    simp only [clashSteps, Model.runSession, Model.runStep_predictionRefused hclash,
      Model.runStep_pushRefused hpush, Model.runStep_predicted hpredict]
  obtain ⟨hlaw, hgrows⟩ := session_appends ofTables_ageTables consistent_ageData clashSteps
  refine ⟨predictions, ofTables_ageTables, consistent_ageData, hrun, hlaw, ?_⟩
  rw [hrun] at hgrows
  exact (List.pairwise_cons.mp hgrows).1 _ (by simp)

end ItemScoring
