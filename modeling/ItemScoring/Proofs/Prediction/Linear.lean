import ItemScoring.Proofs.Model.Descent
import ItemScoring.Proofs.Prediction.Inputs

/-!
# Linear predictors

The equation of an item is a sum over all leaves of its tree, but its value on a
record is the plain one: the slope times the total score, plus the intercept that a
walk over the split rows finds.  Two roundings happen, one in the product and one in
the sum; the leaves that are not selected leave no residue.

`Item.exists_value` says so for one record whose inputs are finite, and
`Item.exists_prediction` for every row of a dataset.
-/

namespace ItemScoring

open ModelTables

/-! ### One record -/

/-- An equation adds the terms of the intercept to the product of slope and total score. -/
theorem Item.hasValue_equation {item : Item} {totalScore : String} {record : Record}
    {score : Float} (hscore : record.value? totalScore = some score) {values : List Float}
    (hvalues : List.Forall₂ (Expr.HasValue record) item.intercept.terms values) :
    Expr.HasValue record (item.equation totalScore).expression
      (values.foldl (· + ·) (0 + item.slope * score)) := by
  have hslope : Expr.HasValue record (.coefficient item.slope) item.slope :=
    Expr.hasValue_coefficient item.slope
  have hproduct := Expr.hasValue_product (.cons hslope (.cons (Expr.hasValue_column hscore) .nil))
  have hsum := Expr.hasValue_sum (.cons hproduct hvalues)
  simpa only [List.foldl_cons, List.foldl_nil, Binary64.one_mul, Item.equation] using hsum

/-- The equation of an item has a value on every record with finite inputs, which is
the slope times the total score plus the intercept, rounded twice. -/
theorem Item.exists_value {tables : ModelTables} (hrows : RowsInOrder tables) {number : Nat}
    {slope : Float} (hslope : slope.isFinite = true) {entry : Item}
    (hitem : IsItem tables number slope entry) {totalScore : String} {record : Record}
    {score : Float} (hscore : record.value? totalScore = some score)
    (hfinite : score.isFinite = true)
    (hcolumns : ∀ column ∈ entry.columns,
      ∃ value, record.value? column = some value ∧ value.isFinite = true) :
    ∃ n c, (entry.equation totalScore).expression.evaluate record = .ok n ∧
      (∀ other, HasIntercept tables number record other ↔ other = c) ∧
      (n == slope * score + c) = true := by
  obtain ⟨c, values, hintercept, hcfinite, hvalues, hsum⟩ :=
    hitem.exists_intercept hrows hcolumns
  have hall := Item.hasValue_equation hscore hvalues
  rw [hitem.slope_eq] at hall
  -- The zero that the sum starts from matters for the sign of a zero at most.
  refine ⟨_, c, hall, hintercept, Binary64.Same.beq ?_ ?_⟩
  · exact (hsum _).trans ((Binary64.zero_add Binary64.isZero_zero _).add_right c)
  · exact Binary64.isNaN_add (Binary64.isNaN_mul hslope hfinite) hcfinite

/-! ### All records -/

/-- The linear predictors of an item, one per row: the slope times the total score plus
the one intercept that the item has on the row. -/
structure LinearIn (tables : ModelTables) (number : Nat) (slope : Float) (totalScore : String)
    (data : Dataset) (linear : Array Float) : Prop where
  size_eq : linear.size = data.rowCount
  value_eq : ∀ row < data.rowCount, ∃ score c n,
    (data.record row).value? totalScore = some score ∧
    (∀ other, HasIntercept tables number (data.record row) other ↔ other = c) ∧
    linear[row]? = some n ∧ (n == slope * score + c) = true

/-- If the inputs are ready, every item is evaluated on every row. -/
theorem Item.exists_prediction {tables : ModelTables} (hrows : RowsInOrder tables) {number : Nat}
    {slope : Float} (hslope : slope.isFinite = true) {entry : Item}
    (hitem : IsItem tables number slope entry) {data : Dataset} {totalScore : String}
    (htotal : data.FiniteIn totalScore)
    (hcolumns : ∀ column ∈ entry.columns, data.FiniteIn column) (naming : ColumnNaming) :
    ∃ prediction, (entry.equation totalScore).evaluate data naming = .ok prediction ∧
      prediction.item = number ∧ prediction.columns = naming.forItem number ∧
      (∀ column ∈ prediction.derived, column.values.size = data.rowCount) ∧
      LinearIn tables number slope totalScore data prediction.linear := by
  have hvalue : ∀ row < data.rowCount, ∃ score n c,
      (data.record row).value? totalScore = some score ∧
      (entry.equation totalScore).expression.evaluate (data.record row) = .ok n ∧
      (∀ other, HasIntercept tables number (data.record row) other ↔ other = c) ∧
      (n == slope * score + c) = true := by
    intro row hrow
    obtain ⟨score, hscore, hfinite⟩ := htotal row hrow
    obtain ⟨n, c, hn⟩ := Item.exists_value hrows hslope hitem hscore hfinite
      fun column hcolumn => hcolumns column hcolumn row hrow
    exact ⟨score, n, c, hscore, hn⟩
  -- There is a value in every row, and so a list of them.
  obtain ⟨values, hvalues⟩ : ∃ values,
      data.records.mapM (entry.equation totalScore).expression.evaluate = .ok values := by
    refine exists_mapM_eq_ok fun record hrecord => ?_
    obtain ⟨row, hrow, rfl⟩ := List.mem_map.mp hrecord
    obtain ⟨-, n, -, -, hn, -⟩ := hvalue row (List.mem_range.mp hrow)
    exact ⟨n, hn⟩
  have hsize : values.length = data.rowCount := by
    rw [← (mapM_eq_ok.mp hvalues).length_eq]
    simp [Dataset.records]
  refine ⟨_, by rw [ItemEquation.evaluate, ItemEquation.evaluateWith, hvalues], ?_, ?_, ?_,
    by simpa using hsize, ?_⟩
  · exact hitem.number_eq
  · simp [Item.equation, hitem.number_eq]
  · simp [ItemPrediction.derived, hsize]
  · intro row hrow
    obtain ⟨score, n, c, hscore, hn, hintercept, hbeq⟩ := hvalue row hrow
    have hrecord : data.records[row]? = some (data.record row) := by
      simp [Dataset.records, hrow]
    -- The value listed for the row is the one that the equation has there.
    obtain ⟨found, hfound, heval⟩ := forall₂_getElem? (mapM_eq_ok.mp hvalues) hrecord
    obtain rfl := Except.ok.inj (heval.symm.trans hn)
    exact ⟨score, c, found, hscore, hintercept, by simpa using hfound, hbeq⟩

end ItemScoring
