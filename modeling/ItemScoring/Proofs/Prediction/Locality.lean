import ItemScoring.Proofs.Prediction.Columns
import ItemScoring.Proofs.Prediction.Outcome
import ItemScoring.Proofs.Prediction.Rows
import ItemScoring.Proofs.Tree.Alike

/-!
# What results depend on

The results at an item and a row depend on the slope of the item, on its offset or its leaf
coefficients and split rows, on the total score of the record, and on its values in the
columns that the item splits on.  `predict_local` says so by comparing two predictions: of
any two models, on any two datasets, under any names.  Where these parts are alike, the
results are the same, bit for bit.

The rows of an item are grouped, sorted and put together to a tree; `nodesAlike` says that
their order, and the number of the item, are lost on the way.
-/

namespace ItemScoring

open Binary64

/-! ### Likeness -/

/-- The lists have related members, up to their order. -/
def SameUpToOrder {α β : Type} (R : α → β → Prop) (list₁ : List α) (list₂ : List β) : Prop :=
  ∃ ordered, ordered.Perm list₂ ∧ List.Forall₂ R list₁ ordered

/-- The rows give the same coefficient to the same node, of whatever item. -/
structure LeafRow.Alike (row₁ row₂ : LeafRow) : Prop where
  node_eq : row₁.node = row₂.node
  coefficient_beq : (row₁.coefficient == row₂.coefficient) = true

/-- The rows are the same, but for the item. -/
structure Split.Alike (row₁ row₂ : Split) : Prop where
  number_eq : row₁.number = row₂.number
  left_eq : row₁.left = row₂.left
  right_eq : row₁.right = row₂.right
  column_eq : row₁.column = row₂.column
  threshold_beq : (row₁.threshold == row₂.threshold) = true

/-- The items have the same offset, or the same leaf coefficients and split rows. -/
inductive InterceptsAlike (tables₁ : ModelTables) (item₁ : Nat) (tables₂ : ModelTables)
    (item₂ : Nat) : Prop
  | offset {row₁ row₂ : OffsetRow} (mem₁ : row₁ ∈ tables₁.offsets) (of_item₁ : row₁.item = item₁)
      (mem₂ : row₂ ∈ tables₂.offsets) (of_item₂ : row₂.item = item₂)
      (beq : (row₁.offset == row₂.offset) = true)
  | tree (nonempty : ∃ row ∈ tables₁.leaves, row.item = item₁)
      (leaves : SameUpToOrder LeafRow.Alike (tables₁.leaves.filter (·.item == item₁))
        (tables₂.leaves.filter (·.item == item₂)))
      (splits : SameUpToOrder Split.Alike (tables₁.splits.filter (·.item == item₁))
        (tables₂.splits.filter (·.item == item₂)))

/-- The items at these positions have the same slope and the same intercept. -/
structure ItemsAlike (tables₁ : ModelTables) (i : Nat) (tables₂ : ModelTables) (j : Nat) :
    Prop where
  slope : SameNumber tables₁.slopes[i]? tables₂.slopes[j]?
  intercept : InterceptsAlike tables₁ (i + 1) tables₂ (j + 1)

/-- The records have the same total score, and the same values in the given columns. -/
structure RecordsAlike (columns : List String) (totalScore₁ : String) (record₁ : Record)
    (totalScore₂ : String) (record₂ : Record) : Prop where
  totalScore : SameNumber (record₁.value? totalScore₁) (record₂.value? totalScore₂)
  values : ∀ column ∈ columns, SameNumber (record₁.value? column) (record₂.value? column)

theorem SameUpToOrder.exists_mem {α β : Type} {R : α → β → Prop} {list₁ : List α} {list₂ : List β}
    (h : SameUpToOrder R list₁ list₂) {a : α} (ha : a ∈ list₁) : ∃ b ∈ list₂, R a b := by
  obtain ⟨ordered, hperm, hrelated⟩ := h
  obtain ⟨i, hi⟩ := List.mem_iff_getElem?.mp ha
  obtain ⟨b, hb, hab⟩ := forall₂_getElem? hrelated hi
  exact ⟨b, hperm.mem_iff.mp (List.mem_of_getElem? hb), hab⟩

/-! ### One item -/

namespace ModelTables

variable {tables tables₁ tables₂ : ModelTables} {number item₁ item₂ : Nat}
  {slope slope₁ slope₂ : Float} {entry entry₁ entry₂ : Item} {record₁ record₂ : Record}

theorem IsItem.intercept_of_offset (hrows : RowsInOrder tables)
    (hitem : IsItem tables number slope entry) {row : OffsetRow} (hrow : row ∈ tables.offsets)
    (hnumber : row.item = number) : entry.intercept = .flat row.offset := by
  have hintercept := hitem.intercept_eq
  cases hkind : entry.intercept with
  | flat offset =>
      rw [hkind] at hintercept
      obtain ⟨-, found, hfound, rfl⟩ := interceptOf_flat_iff.mp hintercept
      have hitem : found.item = number := by simpa using List.find?_some hfound
      rw [List.inj_on_of_nodup_map hrows.offsetsOnce (List.mem_of_find?_eq_some hfound) hrow
        (hitem.trans hnumber.symm)]
  | dif tree =>
      rw [hkind] at hintercept
      obtain ⟨-, hnone, -⟩ := interceptOf_dif_iff.mp hintercept
      have := List.find?_eq_none.mp hnone row hrow
      simp [hnumber] at this

theorem IsItem.exists_tree (hitem : IsItem tables number slope entry)
    (hleaves : tables.leavesOf number ≠ []) : ∃ tree, entry.intercept = .dif tree ∧
      ItemTree.ofRows (tables.splitsOf number) (tables.coefficientsOf number) = .ok tree := by
  have hintercept := hitem.intercept_eq
  cases hkind : entry.intercept with
  | flat offset =>
      rw [hkind] at hintercept
      exact absurd (interceptOf_flat_iff.mp hintercept).1 hleaves
  | dif tree =>
      rw [hkind] at hintercept
      exact ⟨tree, rfl, (interceptOf_dif_iff.mp hintercept).2.2⟩

/-- Rows that are the same up to their order make up the same nodes. -/
theorem nodesAlike (hrows₁ : RowsInOrder tables₁) (hrows₂ : RowsInOrder tables₂)
    (hleaves : SameUpToOrder LeafRow.Alike (tables₁.leavesOf item₁) (tables₂.leavesOf item₂))
    (hsplits : SameUpToOrder Split.Alike (tables₁.splitsOf item₁) (tables₂.splitsOf item₂))
    {tree₁ tree₂ : ItemTree}
    (htree₁ : ItemTree.ofRows (tables₁.splitsOf item₁) (tables₁.coefficientsOf item₁) = .ok tree₁)
    (htree₂ : ItemTree.ofRows (tables₂.splitsOf item₂) (tables₂.coefficientsOf item₂) = .ok tree₂) :
    SplitTree.NodesAlike
      (ItemTree.table (ItemTree.sortRows (tables₁.splitsOf item₁)) (tables₁.coefficientsOf item₁))
      (ItemTree.table (ItemTree.sortRows (tables₂.splitsOf item₂))
        (tables₂.coefficientsOf item₂)) where
  leaf := by
    intro node coefficient₁ hresolved
    obtain ⟨row₁, hmem₁, hitem₁, rfl, rfl⟩ :=
      hrows₁.coefficientsOf_eq_some_iff.mp (ItemTree.resolve_leaf_iff.mp hresolved)
    obtain ⟨row₂, hrow₂, halike⟩ :=
      hleaves.exists_mem (List.mem_filter.mpr ⟨hmem₁, by simpa using hitem₁⟩)
    obtain ⟨hmem₂, hitem₂⟩ := List.mem_filter.mp hrow₂
    have hvalue := hrows₂.coefficientsOf_eq_some_iff.mpr
      ⟨row₂, hmem₂, by simpa using hitem₂, halike.node_eq.symm, rfl⟩
    exact ⟨_, ItemTree.resolve_leaf_iff.mpr hvalue, .of_beq halike.coefficient_beq⟩
  split := by
    intro node column threshold₁ left right hresolved
    obtain ⟨hdistinct₁, -⟩ := ItemTree.ofRows_eq_ok_iff.mp htree₁
    obtain ⟨hdistinct₂, hchecks₂, -⟩ := ItemTree.ofRows_eq_ok_iff.mp htree₂
    -- A split is a row of the first table, and there is a row like it in the second one.
    obtain ⟨-, row₁, hrow₁, rfl, hleft, hright, rfl, rfl⟩ :=
      (ItemTree.resolve_split_iff (ItemTree.nodup_sortRows hdistinct₁)).mp hresolved
    obtain ⟨row₂, hrow₂, halike⟩ := hsplits.exists_mem (ItemTree.mem_sortRows.mp hrow₁)
    have hresolved₂ := ItemTree.resolve_row hdistinct₂ hrow₂ (hchecks₂ row₂ hrow₂)
      (halike.left_eq ▸ hleft) (halike.right_eq ▸ hright)
    rw [← halike.number_eq, ← halike.column_eq] at hresolved₂
    exact ⟨_, hresolved₂, .of_beq halike.threshold_beq⟩

/-- Items that are alike have the same terms on records that are. -/
theorem IsItem.exists_shared_values (hrows₁ : RowsInOrder tables₁) (hrows₂ : RowsInOrder tables₂)
    (hitem₁ : IsItem tables₁ item₁ slope₁ entry₁) (hitem₂ : IsItem tables₂ item₂ slope₂ entry₂)
    (hintercepts : InterceptsAlike tables₁ item₁ tables₂ item₂)
    (hcolumns : ∀ column ∈ entry₁.columns,
      SameNumber (record₁.value? column) (record₂.value? column)) :
    ∃ values₁ values₂, List.Forall₂ (Expr.HasValue record₁) entry₁.intercept.terms values₁ ∧
      List.Forall₂ (Expr.HasValue record₂) entry₂.intercept.terms values₂ ∧
      List.Forall₂ Same values₁ values₂ := by
  -- Offsets are compared as they are; trees are, node by node from the root.
  cases hintercepts with
  | @offset row₁ row₂ mem₁ of_item₁ mem₂ of_item₂ beq =>
      rw [hitem₁.intercept_of_offset hrows₁ mem₁ of_item₁,
        hitem₂.intercept_of_offset hrows₂ mem₂ of_item₂]
      exact ⟨[row₁.offset], [row₂.offset], .cons (Expr.hasValue_coefficient _) .nil,
        .cons (Expr.hasValue_coefficient _) .nil, .cons (.of_beq beq) .nil⟩
  | tree nonempty leaves splits =>
      have hnonempty₂ : tables₂.leavesOf item₂ ≠ [] := by
        obtain ⟨row₁, hrow₁, hof₁⟩ := nonempty
        obtain ⟨row₂, hrow₂, -⟩ :=
          leaves.exists_mem (List.mem_filter.mpr ⟨hrow₁, beq_iff_eq.mpr hof₁⟩)
        exact List.ne_nil_of_mem hrow₂
      obtain ⟨tree₁, hkind₁, htree₁⟩ := hitem₁.exists_tree (leavesOf_ne_nil_iff.mpr nonempty)
      obtain ⟨tree₂, hkind₂, htree₂⟩ := hitem₂.exists_tree hnonempty₂
      obtain ⟨-, -, hdescribes₁, -⟩ := ItemTree.ofRows_eq_ok_iff.mp htree₁
      obtain ⟨-, -, hdescribes₂, -⟩ := ItemTree.ofRows_eq_ok_iff.mp htree₂
      have halike := hdescribes₁.follows.alike
        (nodesAlike hrows₁ hrows₂ leaves splits htree₁ htree₂) hdescribes₂.follows
        (hdescribes₂.root.trans hdescribes₁.root.symm)
      unfold Item.columns at hcolumns
      rw [hkind₁] at hcolumns ⊢
      rw [hkind₂]
      exact halike.exists_values
        (fun column hcolumn => hcolumns column ((ItemTree.mem_tested_iff htree₁).mp hcolumn))
        .nil .nil

/-- Items that are alike have equations with the same value on records that are. -/
theorem IsItem.evaluate_eq (hrows₁ : RowsInOrder tables₁) (hrows₂ : RowsInOrder tables₂)
    (hitem₁ : IsItem tables₁ item₁ slope₁ entry₁) (hitem₂ : IsItem tables₂ item₂ slope₂ entry₂)
    (hslopes : (slope₁ == slope₂) = true)
    (hintercepts : InterceptsAlike tables₁ item₁ tables₂ item₂) {totalScore₁ totalScore₂ : String}
    (hrecords : RecordsAlike entry₁.columns totalScore₁ record₁ totalScore₂ record₂) :
    ∃ n, (entry₁.equation totalScore₁).expression.evaluate record₁ = .ok n ∧
      (entry₂.equation totalScore₂).expression.evaluate record₂ = .ok n := by
  obtain ⟨values₁, values₂, hvalues₁, hvalues₂, hsame⟩ :=
    hitem₁.exists_shared_values hrows₁ hrows₂ hitem₂ hintercepts hrecords.values
  obtain ⟨score₁, score₂, hscore₁, hscore₂, hscores⟩ := hrecords.totalScore
  have hfirst : Same (slope₁ * score₁) (slope₂ * score₂) :=
    ((Same.of_beq hslopes).mul_right score₁).trans ((Same.of_beq hscores).mul_left slope₂)
  have hvalue₁ := Item.hasValue_equation hscore₁ hvalues₁
  have hvalue₂ := Item.hasValue_equation hscore₂ hvalues₂
  -- Sums start from zero, and only a negative zero could tell equal numbers apart.
  have hzero : decoded 0 ≠ .zero .negative := by
    rw [decoded_zero]
    simp
  rw [hitem₁.slope_eq] at hvalue₁
  rw [hitem₂.slope_eq, ← List.foldl_cons, ← foldl_add_congr (.cons hfirst hsame) hzero] at hvalue₂
  exact ⟨_, hvalue₁, hvalue₂⟩

end ModelTables

/-! ### Two predictions -/

/-- Two predictions have the same results wherever the item and the record are alike,
whatever else there is in the models and datasets. -/
theorem predict_local {tables₁ tables₂ : ModelTables} {model₁ model₂ : Model}
    {data₁ data₂ : Dataset} {options₁ options₂ : PredictionOptions}
    {predictions₁ predictions₂ : Predictions}
    (hmodel₁ : Model.ofTables tables₁ = .ok model₁) (hmodel₂ : Model.ofTables tables₂ = .ok model₂)
    (hpredict₁ : model₁.predict data₁ options₁ = .ok predictions₁)
    (hpredict₂ : model₂.predict data₂ options₂ = .ok predictions₂)
    {i j : Nat} (hitems : ItemsAlike tables₁ i tables₂ j) {item : Item}
    (hitem : model₁.items[i]? = some item) {row₁ row₂ : Nat} (hrow₁ : row₁ < data₁.rowCount)
    (hrow₂ : row₂ < data₂.rowCount)
    (hrecords : RecordsAlike item.columns options₁.totalScore (data₁.record row₁)
      options₂.totalScore (data₂.record row₂)) :
    ∃ prediction₁ prediction₂ n p positive, predictions₁.items[i]? = some prediction₁ ∧
      predictions₂.items[j]? = some prediction₂ ∧ prediction₁.HasScores row₁ n p positive ∧
      prediction₂.HasScores row₂ n p positive := by
  obtain ⟨slope₁, slope₂, hslope₁, hslope₂, hslopes⟩ := hitems.slope
  obtain ⟨found₁, hfound₁, -, hisItem₁⟩ := Model.isItem_of_getElem? hmodel₁ hitem
  obtain rfl := Option.some.inj (hslope₁.symm.trans hfound₁)
  -- The second item exists, as it has a slope.
  have hlt : j < model₂.items.length := by
    have := Model.itemCount_eq hmodel₂
    unfold Model.itemCount at this
    rw [this]
    exact (List.getElem?_eq_some_iff.mp hslope₂).1
  have hitem₂ := List.getElem?_eq_getElem hlt
  obtain ⟨found₂, hfound₂, -, hisItem₂⟩ := Model.isItem_of_getElem? hmodel₂ hitem₂
  obtain rfl := Option.some.inj (hslope₂.symm.trans hfound₂)
  obtain ⟨n, hn₁, hn₂⟩ := hisItem₁.evaluate_eq (Model.ofTables_eq_ok_iff.mp hmodel₁).1
    (Model.ofTables_eq_ok_iff.mp hmodel₂).1 hisItem₂ hslopes hitems.intercept hrecords
  obtain ⟨prediction₁, m₁, hprediction₁, hm₁, hscores₁⟩ :=
    Model.exists_scores hpredict₁ hitem hrow₁
  obtain ⟨prediction₂, m₂, hprediction₂, hm₂, hscores₂⟩ :=
    Model.exists_scores hpredict₂ hitem₂ hrow₂
  obtain rfl := Except.ok.inj (hm₁.symm.trans hn₁)
  obtain rfl := Except.ok.inj (hm₂.symm.trans hn₂)
  exact ⟨prediction₁, prediction₂, _, _, _, hprediction₁, hprediction₂, hscores₁, hscores₂⟩

/-- The first item of `ageTables` as the second of other tables, with its leaf rows the
other way round. -/
def otherTables : ModelTables where
  slopes := [0.5, 1.5]
  labels := some ["first", "second"]
  leaves := [⟨2, 3, -1⟩, ⟨2, 2, 0.5⟩]
  offsets := [⟨1, 2⟩]
  splits := [⟨2, 1, some 2, some 3, "age", 40⟩]

/-- The model with these tables. -/
def otherModel : Model where
  tables := otherTables
  items := [
    ⟨1, "first", 0.5, .flat 2⟩,
    ⟨2, "second", 1.5, .dif ⟨otherTables.splits,
      [(3, .leaf (-1)), (2, .leaf 0.5), (1, .internal 2 3)],
      .branch 1 "age" 40 (.leaf 2 0.5) (.leaf 3 (-1))⟩⟩]

/-- Records of which the first is the second one of `ageData`, under another name of the
total score. -/
def otherData : Dataset where
  columns := #[⟨"total", #[4, 9]⟩, ⟨"size", #[1, 2]⟩, ⟨"age", #[41, 30]⟩]
  index := .ofList [("total", 0), ("size", 1), ("age", 2)]

theorem itemsAlike_otherTables : ItemsAlike ageTables 0 otherTables 1 where
  slope := ⟨1.5, 1.5, rfl, rfl, by decide +kernel⟩
  intercept := by
    have hleaves : SameUpToOrder LeafRow.Alike (ageTables.leavesOf 1) (otherTables.leavesOf 2) :=
      ⟨[⟨2, 2, 0.5⟩, ⟨2, 3, -1⟩], .swap _ _ _,
        .cons ⟨rfl, by decide +kernel⟩ (.cons ⟨rfl, by decide +kernel⟩ .nil)⟩
    have hsplits : SameUpToOrder Split.Alike (ageTables.splitsOf 1) (otherTables.splitsOf 2) :=
      ⟨[⟨2, 1, some 2, some 3, "age", 40⟩], .refl _,
        .cons ⟨rfl, rfl, rfl, rfl, by decide +kernel⟩ .nil⟩
    exact .tree (by decide +kernel) hleaves hsplits

/-- Another place of the item, other columns and another name of the total score make no
difference. -/
theorem predict_local_otherData :
    ∃ predictions₁ predictions₂, Model.ofTables ageTables = .ok ageModel ∧
      Model.ofTables otherTables = .ok otherModel ∧
      ageModel.predict ageData { totalScore := "score" } = .ok predictions₁ ∧
      otherModel.predict otherData { totalScore := "total" } = .ok predictions₂ ∧
      ItemsAlike ageTables 0 otherTables 1 ∧
      ∃ prediction₁ prediction₂ n p positive, predictions₁.items[0]? = some prediction₁ ∧
        predictions₂.items[1]? = some prediction₂ ∧ prediction₁.HasScores 1 n p positive ∧
        prediction₂.HasScores 0 n p positive := by
  have hother : Model.ofTables otherTables = .ok otherModel := by decide +kernel
  have hbuilt : Dataset.ofColumns otherData.columns.toList = .ok otherData := rfl
  have hconsistent := Dataset.consistent_of_ofColumns hbuilt
  obtain ⟨predictions₁, hpredict₁⟩ := exists_predict_ageModel
  have hinputs₂ : otherModel.checkInputs otherData { totalScore := "total" } = .ok () := by
    decide +kernel
  obtain ⟨predictions₂, hpredict₂⟩ :=
    Model.exists_predict hother hconsistent hinputs₂ (by decide +kernel)
  have hitem : ageModel.items[0]? = some ⟨1, "item1", 1.5, .dif ⟨ageTables.splits,
      [(3, .leaf (-1)), (2, .leaf 0.5), (1, .internal 2 3)],
      .branch 1 "age" 40 (.leaf 2 0.5) (.leaf 3 (-1))⟩⟩ := rfl
  refine ⟨predictions₁, predictions₂, ofTables_ageTables, hother, hpredict₁, hpredict₂,
    itemsAlike_otherTables, predict_local ofTables_ageTables hother hpredict₁ hpredict₂
      itemsAlike_otherTables hitem (by decide +kernel) (by decide +kernel) ?_⟩
  -- The two records have the same score and the same age, under other names and in other rows.
  refine ⟨⟨4, 4, rfl, rfl, by decide +kernel⟩, fun column hcolumn => ?_⟩
  obtain rfl : column = "age" := by simpa [Item.columns, ItemTree.columns, ageTables] using hcolumn
  exact ⟨41, 41, rfl, rfl, by decide +kernel⟩

end ItemScoring
