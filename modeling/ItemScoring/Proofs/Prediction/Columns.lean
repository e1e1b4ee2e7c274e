import ItemScoring.Proofs.Model.Descent
import ItemScoring.Proofs.Prediction.Inputs
import ItemScoring.Proofs.Tree.Columns

/-!
# The columns of equations

Before a prediction a dataset is searched for the columns of the split rows, while what
evaluation reads are the columns of the equations.  `Item.ReadsColumns` says for one item
that these are the same: the total score, which comes first, and the columns of its tree.
The model as a whole lists the union over its items (`EquationsComplete`), so an equation
has a value on every row of a dataset that passed the search.
-/

namespace ItemScoring

open ModelTables

/-- The equation of the item reads the total score, first of all, and the columns of the
item; neither list of columns has a repeat. -/
structure Item.ReadsColumns (totalScore : String) (item : Item) : Prop where
  mem_iff : ∀ name, name ∈ (item.equation totalScore).expression.columns ↔
    name = totalScore ∨ name ∈ item.columns
  first : (item.equation totalScore).expression.columns.head? = some totalScore
  distinct : (item.equation totalScore).expression.columns.Nodup
  distinctOfItem : item.columns.Nodup

/-- The terms that the rows of the item contribute to its equation can be grown from the
rows node by node. -/
def Item.Grows (tables : ModelTables) (item : Item) : Prop :=
  ∀ tree, item.intercept = .dif tree → ∃ expression,
    (ItemTree.table tree.splits (tables.coefficientsOf item.number)).branchExpression rootId [] =
      .ok expression ∧ item.intercept.terms = expression.summands

/-- There is an equation for every item, in order, and together with the total score the
equations read exactly the columns that the model lists. -/
structure EquationsComplete (tables : ModelTables) (model : Model) (totalScore : String) :
    Prop where
  items_eq : (model.equations totalScore).map ItemEquation.item = model.items.map Item.number
  grows : ∀ item ∈ model.items, item.Grows tables
  reads : ∀ item ∈ model.items, item.ReadsColumns totalScore
  union_iff : ∀ name,
    (name = totalScore ∨ ∃ equation ∈ model.equations totalScore,
      name ∈ equation.expression.columns) ↔ name = totalScore ∨ name ∈ model.splitColumns
  distinct : model.splitColumns.Nodup

/-! ### One item -/

section Items

variable {tables : ModelTables} {number : Nat} {slope : Float} {item : Item} {totalScore : String}

theorem mentions_equation : (item.equation totalScore).expression.mentions =
    totalScore :: Expr.mentionsAll item.intercept.terms := by
  simp [Item.equation, Expr.mentions, Expr.mentionsAll]

theorem ModelTables.IsItem.mem_mentions_terms (hitem : IsItem tables number slope item)
    {name : String} : name ∈ Expr.mentionsAll item.intercept.terms ↔ name ∈ item.columns := by
  have hintercept := hitem.intercept_eq
  unfold Item.columns
  cases hkind : item.intercept with
  | flat offset => simp [Intercept.terms, Expr.mentionsAll, Expr.mentions]
  | dif tree =>
      rw [hkind] at hintercept
      obtain ⟨-, -, htree⟩ := interceptOf_dif_iff.mp hintercept
      simp only [Intercept.terms, SplitTree.mem_mentionsAll_terms, ItemTree.mem_tested_iff htree,
        Expr.mentionsAll, List.not_mem_nil, false_or]

theorem ModelTables.IsItem.readsColumns (hitem : IsItem tables number slope item) :
    item.ReadsColumns totalScore where
  mem_iff := by
    intro name
    rw [Expr.mem_columns, mentions_equation, List.mem_cons, hitem.mem_mentions_terms]
  first := by
    unfold Expr.columns
    rw [head?_eraseDups, mentions_equation, List.head?_cons]
  distinct := nodup_eraseDups _
  distinctOfItem := by
    unfold Item.columns
    cases item.intercept with
    | flat offset => exact List.nodup_nil
    | dif tree => exact nodup_eraseDups _

theorem ModelTables.IsItem.grows (hitem : IsItem tables number slope item) :
    item.Grows tables := by
  intro tree hkind
  have hintercept := hitem.intercept_eq
  rw [hkind] at hintercept
  obtain ⟨-, -, htree⟩ := interceptOf_dif_iff.mp hintercept
  rw [hitem.number_eq]
  refine ⟨_, ItemTree.branchExpression_eq htree, ?_⟩
  rw [hkind]
  exact (SplitTree.summands_expression tree.shape []).symm

end Items

/-! ### All items -/

section Models

variable {tables : ModelTables} {model : Model} {totalScore : String}

theorem Model.equationsComplete (hmodel : Model.ofTables tables = .ok model)
    (totalScore : String) : EquationsComplete tables model totalScore where
  items_eq := by
    unfold equations
    rw [List.map_map]
    rfl
  grows := by
    intro item hmem
    obtain ⟨number, slope, hitem⟩ := exists_isItem hmodel hmem
    exact hitem.grows
  reads := by
    intro item hmem
    obtain ⟨number, slope, hitem⟩ := exists_isItem hmodel hmem
    exact hitem.readsColumns
  union_iff := by
    intro name
    -- An equation reads the total score and the columns of its own item.
    have hcolumns : ∀ item ∈ model.items,
        (name ∈ (item.equation totalScore).expression.columns ↔
          name = totalScore ∨ name ∈ item.columns) := by
      intro item hmem
      obtain ⟨number, slope, hitem⟩ := exists_isItem hmodel hmem
      exact hitem.readsColumns.mem_iff name
    rw [Model.mem_splitColumns]
    unfold equations
    constructor
    · rintro (hname | ⟨equation, hequation, hname⟩)
      · exact Or.inl hname
      · obtain ⟨item, hmem, rfl⟩ := List.mem_map.mp hequation
        exact ((hcolumns item hmem).mp hname).imp_right fun h => ⟨item, hmem, h⟩
    · rintro (hname | ⟨item, hmem, hname⟩)
      · exact Or.inl hname
      · exact Or.inr ⟨_, List.mem_map.mpr ⟨item, hmem, rfl⟩,
          (hcolumns item hmem).mpr (Or.inr hname)⟩
  distinct := nodup_eraseDups _

/-- With inputs that are ready, whatever the equations read is there. -/
theorem InputsReady.equations_present {data : Dataset} {options : PredictionOptions}
    (hready : InputsReady tables data options) (hmodel : Model.ofTables tables = .ok model) :
    ∀ equation ∈ model.equations options.totalScore,
      ∀ name ∈ equation.expression.columns, name ∈ data.names := by
  intro equation hequation name hname
  have hread := ((Model.equationsComplete hmodel options.totalScore).union_iff name).mp
    (Or.inr ⟨equation, hequation, hname⟩)
  refine Model.inputs_present hmodel hready.totalScore hready.items name ?_
  rwa [Model.inputs, List.mem_eraseDups, List.mem_cons]

/-- A column of a dataset has a value in every row. -/
theorem Dataset.Consistent.exists_value {data : Dataset} (hdata : data.Consistent) {name : String}
    (hname : data.hasColumn name = true) {row : Nat} (hrow : row < data.rowCount) :
    ∃ value, (data.record row).value? name = some value := by
  obtain ⟨values, hvalues, hsize⟩ := hdata.exists_values (hdata.hasColumn_iff.mp hname)
  rw [Dataset.value?_record hvalues]
  exact ⟨_, Array.getElem?_eq_getElem (hsize ▸ hrow)⟩

/-- The equations of a model are complete, and on a dataset with the columns that the model
asks for each of them has a value on every row. -/
theorem Model.equations_evaluate (hmodel : Model.ofTables tables = .ok model)
    (totalScore : String) : EquationsComplete tables model totalScore ∧
      ∀ data : Dataset, data.Consistent → data.hasColumn totalScore = true →
        (∀ name ∈ model.splitColumns, data.hasColumn name = true) →
        ∀ equation ∈ model.equations totalScore, ∀ row < data.rowCount,
          ∃ n, equation.expression.evaluate (data.record row) = .ok n := by
  have hcomplete := equationsComplete hmodel totalScore
  refine ⟨hcomplete, fun data hdata htotal hcolumns equation hequation row hrow => ?_⟩
  refine Expr.exists_value _ fun name hname => hdata.exists_value ?_ hrow
  have hread := (hcomplete.union_iff name).mp
    (Or.inr ⟨equation, hequation, Expr.mem_columns.mpr hname⟩)
  rcases hread with rfl | hread
  · exact htotal
  · exact hcolumns name hread

/-- Both equations have a value on a record above the threshold. -/
theorem equations_evaluate_ageModel :
    Model.ofTables ageTables = .ok ageModel ∧ EquationsComplete ageTables ageModel "score" ∧
      ∀ equation ∈ ageModel.equations "score",
        ∃ n, equation.expression.evaluate (ageData.record 1) = .ok n := by
  obtain ⟨hcomplete, hevaluate⟩ := Model.equations_evaluate ofTables_ageTables "score"
  refine ⟨ofTables_ageTables, hcomplete, fun equation hequation => ?_⟩
  have hcolumns : ∀ name ∈ ageModel.splitColumns, ageData.hasColumn name = true := by
    decide +kernel
  have htotal : ageData.hasColumn "score" = true := by decide +kernel
  have hrow : 1 < ageData.rowCount := by decide +kernel
  exact hevaluate ageData consistent_ageData htotal hcolumns equation hequation 1 hrow

end Models

end ItemScoring
