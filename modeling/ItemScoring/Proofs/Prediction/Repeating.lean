import Mathlib.Data.List.Forall2
import ItemScoring.Proofs.Expr.Evaluation
import ItemScoring.Proofs.Prediction.Columns
import ItemScoring.Proofs.Prediction.Probability
import ItemScoring.Proofs.Prediction.Sessions

/-!
# Predicting once more

A prediction hands its dataset on with its own columns behind it.  Asked for the same names again,
the model refuses this dataset at the first one, which is taken by now
(`Model.predict_of_taken`).  Asked for names that are new, it comes to the same results.

The second part does not depend on what was appended: it holds on every dataset that the first one
has grown to (`Model.exists_same_results`).  A name that was there keeps its values, so that the
columns that the model reads are still there and finite, whatever else is in the dataset by then
(`InputsReady.of_growsTo`), and equations, which read nothing else, have the values that they
had (`ItemEquation.sameResults`).
-/

namespace ItemScoring

variable {tables : ModelTables} {model : Model} {data earlier later : Dataset}
  {options : PredictionOptions} {naming naming' : ColumnNaming} {predictions : Predictions}

/-! ### On a dataset that has grown -/

/-- The results are the same, under whatever names. -/
structure ItemPrediction.SameResults (first second : ItemPrediction) : Prop where
  item_eq : second.item = first.item
  linear_eq : second.linear = first.linear
  probability_eq : second.probability = first.probability
  positive_eq : second.positive = first.positive

section Growing

variable (hgrows : earlier.GrowsTo later)
include hgrows

theorem Dataset.GrowsTo.finiteIn (hcount : 0 < earlier.columnCount) {name : String}
    (hname : name ∈ earlier.names) (hfinite : earlier.FiniteIn name) : later.FiniteIn name := by
  intro row hrow
  rw [hgrows.rowCount_eq hcount] at hrow
  rw [hgrows.value?_eq hname]
  exact hfinite row hrow

/-- Inputs that were ready still are, if the names of derived columns are free. -/
theorem InputsReady.of_growsTo (hmodel : Model.ofTables tables = .ok model)
    (hcount : 0 < earlier.columnCount) (hready : InputsReady tables earlier options)
    (hfree : ∀ name ∈ naming.derivedNames model.itemCount, name ∉ later.names) :
    InputsReady tables later { options with naming } where
  totalScore := hgrows.subset_names hready.totalScore
  items item hpos hle := {
    present := fun row hused hof =>
      hgrows.subset_names ((hready.items item hpos hle).present row hused hof)
    free := fun name hname => hfree name (ColumnNaming.mem_derivedNames_iff.mpr
      ⟨item, ⟨hpos, hle.trans_eq (Model.itemCount_eq hmodel).symm⟩, hname⟩) }
  finiteScore := hgrows.finiteIn hcount hready.totalScore hready.finiteScore
  finite row hused :=
    hgrows.finiteIn hcount (Model.column_mem_of_clear hmodel hready.items hused)
      (hready.finite row hused)

/-- An equation has the values that it had, row by row. -/
theorem Dataset.GrowsTo.mapM_evaluate (hcount : 0 < earlier.columnCount) {e : Expr}
    (hcolumns : ∀ name ∈ e.columns, name ∈ earlier.names) :
    later.records.mapM e.evaluate = earlier.records.mapM e.evaluate := by
  have hrows : ∀ row, e.evaluate (later.record row) = e.evaluate (earlier.record row) :=
    fun row => Expr.evaluate_congr rfl fun name hname => hgrows.value?_eq (hcolumns name hname) row
  rw [Dataset.records, Dataset.records, hgrows.rowCount_eq hcount, List.mapM_map, List.mapM_map]
  exact congrArg (fun f => (List.range earlier.rowCount).mapM f) (funext hrows)

theorem ItemEquation.sameResults (hcount : 0 < earlier.columnCount) {equation : ItemEquation}
    (hcolumns : ∀ name ∈ equation.expression.columns, name ∈ earlier.names)
    {first second : ItemPrediction} (hfirst : equation.evaluate earlier naming = .ok first)
    (hsecond : equation.evaluate later naming' = .ok second) : first.SameResults second := by
  obtain ⟨hvalues, hitem, -, hprobability, hpositive⟩ := evaluateWith_eq_ok_iff.mp hfirst
  obtain ⟨hvalues', hitem', -, hprobability', hpositive'⟩ := evaluateWith_eq_ok_iff.mp hsecond
  have hlinear : second.linear = first.linear := by
    rw [hgrows.mapM_evaluate hcount hcolumns, hvalues, Except.ok.injEq] at hvalues'
    exact Array.toList_inj.mp hvalues'.symm
  have hsame : second.probability = first.probability := by
    rw [hprobability', hprobability, hlinear]
  exact ⟨hitem'.trans hitem.symm, hlinear, hsame, by rw [hpositive', hpositive, hsame]⟩

end Growing

/-! ### Once more -/

namespace Model

/-- New names lead to the same results on a dataset that has grown, whatever has come to it. -/
theorem exists_same_results (hmodel : ofTables tables = .ok model) (hearlier : earlier.Consistent)
    (hlater : later.Consistent) (hgrows : earlier.GrowsTo later)
    (hpredict : model.predict earlier options = .ok predictions)
    (hdistinct : (naming.derivedNames model.itemCount).Nodup)
    (hfree : ∀ name ∈ naming.derivedNames model.itemCount, name ∉ later.names) :
    ∃ again, model.predict later { options with naming } = .ok again ∧
      again.equations = predictions.equations ∧
      List.Forall₂ ItemPrediction.SameResults predictions.items again.items := by
  obtain ⟨hinputs, hequations, hitems, -⟩ := predictWith_eq_ok_iff.mp hpredict
  have hready := (checkInputs_eq_ok_iff hmodel hearlier).mp hinputs
  have hcount := hready.columnCount_pos
  have hreadyAgain := hready.of_growsTo hgrows hmodel hcount hfree
  rw [itemCount_eq hmodel] at hdistinct
  obtain ⟨again, hagain⟩ := (predict_of_ready hmodel hlater hreadyAgain).1.mpr hdistinct
  obtain ⟨-, hequationsAgain, hitemsAgain, -⟩ := predictWith_eq_ok_iff.mp hagain
  have hsame : again.equations = predictions.equations := hequationsAgain.trans hequations.symm
  -- The equations read columns of the earlier data only, which are the same in the later one.
  have hcolumns := hready.equations_present hmodel
  rw [← hequations] at hcolumns
  rw [hsame] at hitemsAgain
  refine ⟨again, hagain, hsame, ?_⟩
  refine forall₂_of_shared ((List.forall₂_and_left _ _).mpr ⟨hcolumns, mapM_eq_ok.mp hitems⟩)
    (mapM_eq_ok.mp hitemsAgain) fun equation first second ⟨hpresent, hfirst⟩ hsecond => ?_
  exact ItemEquation.sameResults hgrows hcount hpresent hfirst hsecond

/-- The same names are refused, at the first one of all. -/
theorem predict_of_taken (hmodel : ofTables tables = .ok model) (hlater : later.Consistent)
    (hgrows : earlier.GrowsTo later) (hready : InputsReady tables earlier options)
    (hpos : 0 < model.itemCount) (htaken : (options.naming.forItem 1).linear ∈ later.names) :
    model.predict later options =
      .error (.outputColumnExists (options.naming.forItem 1).linear) := by
  rw [itemCount_eq hmodel] at hpos
  have hrefused : ItemRefused tables later options.naming 1
      (.outputColumnExists (options.naming.forItem 1).linear) := by
    refine .taken (fun row hused hof => ?_) ((firstIn_cons_of_pos htaken).mpr rfl)
    exact hgrows.subset_names ((hready.items 1 Nat.le.refl hpos).present row hused hof)
  -- No item has a smaller number than the first one.
  exact predict_of_refused hmodel hlater (.item (hgrows.subset_names hready.totalScore)
    ⟨Nat.le.refl, hpos⟩ hrefused fun smaller hsmaller hless => by omega)

end Model

/-- Predicting on what a prediction has returned: under the same names it is refused for the first
of them; under names that are distinct and new it has the same equations, and item by item the same
linear predictors, probabilities and classes.  The dataset of the first prediction is any that can
come about (`Dataset.Reachable.consistent`). -/
theorem predict_again (hmodel : Model.ofTables tables = .ok model) (hdata : data.Consistent)
    (hpredict : model.predict data options = .ok predictions) :
    (0 < model.itemCount → model.predict predictions.dataset options =
      .error (.outputColumnExists (options.naming.forItem 1).linear)) ∧
    ∀ naming : ColumnNaming, (naming.derivedNames model.itemCount).Nodup →
      (∀ name ∈ naming.derivedNames model.itemCount, name ∉ predictions.dataset.names) →
      ∃ again, model.predict predictions.dataset { options with naming } = .ok again ∧
        again.equations = predictions.equations ∧
        List.Forall₂ ItemPrediction.SameResults predictions.items again.items := by
  have hnext := hdata.predict hpredict
  have happended := Model.appendedTo hmodel hpredict
  have hgrows := hdata.growsTo_of_append hnext happended.columns_eq
  constructor
  · intro hpos
    have hready := (Model.checkInputs_eq_ok_iff hmodel hdata).mp
      (Model.predictWith_eq_ok_iff.mp hpredict).1
    have htaken : (options.naming.forItem 1).linear ∈ predictions.dataset.names := by
      rw [happended.dataset_names_eq]
      refine List.mem_append_right _ (List.mem_flatMap.mpr ⟨0, List.mem_range.mpr hpos, ?_⟩)
      exact List.mem_cons_self
    exact Model.predict_of_taken hmodel hnext hgrows hready hpos htaken
  · intro naming hdistinct hfree
    exact Model.exists_same_results hmodel hdata hnext hgrows hpredict hdistinct hfree

/-- The first run has left a column with infinite values, and names that the new ones begin with;
neither is in the way of the second one. -/
theorem predict_again_steepModel : ∃ predictions again,
    Model.ofTables steepTables = .ok steepModel ∧ steepData.Consistent ∧
    steepModel.predict steepData { totalScore := "score" } = .ok predictions ∧
    (∃ prediction n p positive, predictions.items[0]? = some prediction ∧
      prediction.HasScores 0 n p positive ∧ n.isInf = true) ∧
    steepModel.predict predictions.dataset { totalScore := "score" } =
      .error (.outputColumnExists "n1") ∧
    steepModel.predict predictions.dataset
      { totalScore := "score", naming := ⟨"n1", "p1", "I1"⟩ } = .ok again ∧
    again.equations = predictions.equations ∧
    List.Forall₂ ItemPrediction.SameResults predictions.items again.items := by
  have hmodel : Model.ofTables steepTables = .ok steepModel := by decide +kernel
  have hbuilt : Dataset.ofColumns steepData.columns.toList = .ok steepData := rfl
  have hdata := Dataset.consistent_of_ofColumns hbuilt
  have hinputs : steepModel.checkInputs steepData { totalScore := "score" } = .ok () := by
    decide +kernel
  obtain ⟨predictions, hpredict⟩ := Model.exists_predict hmodel hdata hinputs (by decide +kernel)
  obtain ⟨htaken, hnew⟩ := predict_again hmodel hdata hpredict
  have hnames : predictions.dataset.names = ["score", "n1", "p1", "I1"] := by
    rw [(Model.appendedTo hmodel hpredict).dataset_names_eq]
    decide +kernel
  have hfree : ∀ name ∈ ColumnNaming.derivedNames ⟨"n1", "p1", "I1"⟩ steepModel.itemCount,
      name ∉ predictions.dataset.names := by
    rw [hnames]
    decide +kernel
  obtain ⟨again, hagain, hequations, hsame⟩ := hnew _ (by decide +kernel) hfree
  have hitem : steepModel.items[0]? = some ⟨1, "item1", 1e308, .flat 0⟩ := rfl
  have hrow : 0 < steepData.rowCount := by decide +kernel
  obtain ⟨prediction, n, hprediction, hn, hscores⟩ := Model.exists_scores hpredict hitem hrow
  -- The first prediction overflows, and its infinity is a value of the dataset that is read again.
  have hinfinite : n.isInf = true := by
    have hvalue : ((Item.equation "score" ⟨1, "item1", 1e308, .flat 0⟩).expression.evaluate
        (steepData.record 0)).map Float.isInf = .ok true := by decide +kernel
    rw [hn] at hvalue
    exact Except.ok.inj hvalue
  exact ⟨predictions, again, hmodel, hdata, hpredict, ⟨prediction, n, _, _, hprediction, hscores,
    hinfinite⟩, htaken (by decide), hagain, hequations, hsame⟩

end ItemScoring
