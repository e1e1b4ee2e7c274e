import ItemScoring.Proofs.Model.Descent
import ItemScoring.Proofs.Tree.Halving

/-!
# The split rows that are used

Split rows count if their item has leaf rows, and not otherwise (`ModelTables.Uses`).  A model keeps
them item by item, and those of an item by their numbers (`Model.pairwise_splitRows`), whatever
their order in the tables.  In this order the columns are listed, each where it first occurs, so
that the first column of a kind is that of the first row of this kind
(`Model.firstIn_splitColumns`).
-/

namespace ItemScoring

/-- The row belongs to an earlier item, or to the same item with a smaller number. -/
def Split.Before (first second : Split) : Prop :=
  first.item < second.item ∨ first.item = second.item ∧ first.number < second.number

theorem Split.Before.asymm {first second : Split} (h : first.Before second) :
    ¬ second.Before first := by
  rintro (hitem | ⟨hitem, hnumber⟩)
  · rcases h with hless | ⟨hsame, -⟩
    · exact Nat.lt_asymm hless hitem
    · exact absurd hsame.symm hitem.ne
  · rcases h with hless | ⟨-, hless⟩
    · exact absurd hitem.symm hless.ne
    · exact UInt32.lt_asymm hless hnumber

/-- The split rows that the tree of the item comes from. -/
def Item.splitRows (item : Item) : List Split :=
  match item.intercept with
  | .dif tree => tree.splits
  | .flat _ => []

theorem Item.columns_eq (item : Item) :
    item.columns = (item.splitRows.map Split.column).eraseDups := by
  unfold columns splitRows
  cases item.intercept with
  | dif tree => rfl
  | flat offset => simp

namespace ModelTables

/-- The row is a split row of an item that has leaf rows. -/
structure Uses (tables : ModelTables) (row : Split) : Prop where
  mem : row ∈ tables.splits
  leaf : ∃ leaf ∈ tables.leaves, leaf.item = row.item

variable {tables : ModelTables} {number : Nat} {slope : Float} {item : Item} {row : Split}

/-! ### The rows of an item -/

theorem IsItem.mem_splitRows (hitem : IsItem tables number slope item) :
    row ∈ item.splitRows ↔ tables.Uses row ∧ row.item = number := by
  have hintercept := hitem.intercept_eq
  rw [Item.splitRows]
  -- An item with a tree has leaf rows, so its rows are used; an item with an offset has neither.
  cases hkind : item.intercept with
  | dif tree =>
      rw [hkind] at hintercept
      obtain ⟨hleaves, -, htree⟩ := interceptOf_dif_iff.mp hintercept
      obtain ⟨-, -, -, hsplits, -⟩ := ItemTree.ofRows_eq_ok_iff.mp htree
      have hrows : row ∈ tree.splits ↔ row ∈ tables.splits ∧ row.item = number := by
        rw [hsplits, ItemTree.mem_sortRows, mem_splitsOf]
      refine hrows.trans ?_
      constructor
      · rintro ⟨hmem, rfl⟩
        exact ⟨⟨hmem, leavesOf_ne_nil_iff.mp hleaves⟩, rfl⟩
      · rintro ⟨⟨hmem, -⟩, hnumber⟩
        exact ⟨hmem, hnumber⟩
  | flat offset =>
      rw [hkind] at hintercept
      obtain ⟨hnil, -⟩ := interceptOf_flat_iff.mp hintercept
      constructor
      · exact fun hmem => absurd hmem List.not_mem_nil
      · rintro ⟨⟨-, hleaf⟩, rfl⟩
        exact absurd hnil (leavesOf_ne_nil_iff.mpr hleaf)

theorem IsItem.pairwise_splitRows (hitem : IsItem tables number slope item) :
    item.splitRows.Pairwise Split.Before := by
  have hascending : item.splitRows.Pairwise fun first second => first.number < second.number := by
    have hintercept := hitem.intercept_eq
    rw [Item.splitRows]
    cases hkind : item.intercept with
    | dif tree =>
        rw [hkind] at hintercept
        exact ItemTree.pairwise_splits (interceptOf_dif_iff.mp hintercept).2.2
    | flat offset => exact List.Pairwise.nil
  refine hascending.imp_of_mem fun hfirst hsecond hless => Or.inr ⟨?_, hless⟩
  rw [(hitem.mem_splitRows.mp hfirst).2, (hitem.mem_splitRows.mp hsecond).2]

theorem IsItem.mem_columns (hitem : IsItem tables number slope item) {name : String} :
    name ∈ item.columns ↔ ∃ row, tables.Uses row ∧ row.item = number ∧ row.column = name := by
  simp only [item.columns_eq, List.mem_eraseDups, List.mem_map, hitem.mem_splitRows, and_assoc]

/-- The first column of an item with a property is that of the row with the least number. -/
theorem IsItem.firstIn_columns (hitem : IsItem tables number slope item) {P : String → Prop}
    {name : String} : FirstIn P item.columns name ↔ ∃ row, tables.Uses row ∧ row.item = number ∧
      P row.column ∧ (∀ other, tables.Uses other → other.item = number →
        other.number < row.number → ¬ P other.column) ∧ row.column = name := by
  rw [item.columns_eq, firstIn_eraseDups, firstIn_map]
  refine exists_congr fun row => ?_
  rw [firstIn_iff_of_pairwise hitem.pairwise_splitRows fun other => Split.Before.asymm]
  simp only [hitem.mem_splitRows, and_imp, and_assoc]
  refine and_congr_right fun _ => and_congr_right fun hrow => and_congr_right fun _ =>
    and_congr_left' (forall_congr' fun other => ?_)
  refine imp_congr_right fun _ => forall_congr' fun hother => ?_
  simp [Split.Before, hrow, hother]

end ModelTables

/-! ### The rows of a model -/

namespace Model

open ModelTables

variable {tables : ModelTables} {model : Model} {row : Split}

/-- There is an item with each number from one on. -/
theorem exists_item (hmodel : ofTables tables = .ok model) {number : Nat} (hpos : 1 ≤ number)
    (hle : number ≤ tables.slopes.length) :
    ∃ slope, ∃ item ∈ model.items, tables.IsItem number slope item := by
  have hlt : number - 1 < model.items.length := by
    have hcount : model.items.length = tables.slopes.length := itemCount_eq hmodel
    omega
  have hitem := List.getElem?_eq_getElem hlt
  obtain ⟨slope, -, -, hisItem⟩ := isItem_of_getElem? hmodel hitem
  rw [Nat.sub_add_cancel hpos] at hisItem
  exact ⟨slope, _, List.mem_of_getElem? hitem, hisItem⟩

/-- The items have the numbers from one on. -/
theorem number_bounds (hmodel : ofTables tables = .ok model) {item : Item}
    (hitem : item ∈ model.items) : 1 ≤ item.number ∧ item.number ≤ tables.slopes.length := by
  have hnumber : item.number ∈ List.range' 1 model.itemCount := by
    rw [← map_number_items hmodel]
    exact List.mem_map_of_mem hitem
  rw [itemCount_eq hmodel] at hnumber
  have hbounds := List.mem_range'_1.mp hnumber
  omega

theorem pairwise_items (hmodel : ofTables tables = .ok model) :
    model.items.Pairwise fun first second => first.number < second.number := by
  apply List.pairwise_map.mp
  rw [map_number_items hmodel]
  exact List.pairwise_lt_range' 1

theorem mem_splitRows (hmodel : ofTables tables = .ok model) :
    row ∈ model.items.flatMap Item.splitRows ↔ tables.Uses row := by
  rw [List.mem_flatMap]
  constructor
  · rintro ⟨item, hitem, hrow⟩
    obtain ⟨number, slope, hisItem⟩ := exists_isItem hmodel hitem
    exact (hisItem.mem_splitRows.mp hrow).1
  · intro huses
    obtain ⟨hrows, -⟩ := ofTables_eq_ok_iff.mp hmodel
    obtain ⟨⟨hpos, hle⟩, -⟩ := hrows.splits row huses.mem
    obtain ⟨slope, item, hitem, hisItem⟩ := exists_item hmodel hpos hle
    exact ⟨item, hitem, hisItem.mem_splitRows.mpr ⟨huses, rfl⟩⟩

theorem pairwise_splitRows (hmodel : ofTables tables = .ok model) :
    (model.items.flatMap Item.splitRows).Pairwise Split.Before := by
  -- Rows of one item are ordered by their numbers, rows of two items by those of the items.
  refine List.pairwise_flatMap.mpr ⟨fun item hitem => ?_, ?_⟩
  · obtain ⟨number, slope, hisItem⟩ := exists_isItem hmodel hitem
    exact hisItem.pairwise_splitRows
  · refine (pairwise_items hmodel).imp_of_mem fun hfirst hsecond hless row hrow other hother => ?_
    obtain ⟨_, _, hisFirst⟩ := exists_isItem hmodel hfirst
    obtain ⟨_, _, hisSecond⟩ := exists_isItem hmodel hsecond
    refine Or.inl ?_
    rwa [(hisFirst.mem_splitRows.mp hrow).2, (hisSecond.mem_splitRows.mp hother).2,
      ← hisFirst.number_eq, ← hisSecond.number_eq]

theorem mem_splitColumns {name : String} :
    name ∈ model.splitColumns ↔ ∃ item ∈ model.items, name ∈ item.columns := by
  rw [splitColumns, List.mem_eraseDups, List.mem_flatMap]

theorem mem_splitColumns_iff_uses (hmodel : ofTables tables = .ok model) {name : String} :
    name ∈ model.splitColumns ↔ ∃ row, tables.Uses row ∧ row.column = name := by
  simp only [mem_splitColumns, Item.columns_eq, List.mem_eraseDups, List.mem_map,
    ← mem_splitRows hmodel, List.mem_flatMap]
  constructor
  · rintro ⟨item, hitem, row, hrow, hname⟩
    exact ⟨row, ⟨item, hitem, hrow⟩, hname⟩
  · rintro ⟨row, ⟨item, hitem, hrow⟩, hname⟩
    exact ⟨item, hitem, row, hrow, hname⟩

/-- The first column of all with a property is that of the first row. -/
theorem firstIn_splitColumns (hmodel : ofTables tables = .ok model) {P : String → Prop}
    {name : String} : FirstIn P model.splitColumns name ↔ ∃ row, tables.Uses row ∧ P row.column ∧
      (∀ other, tables.Uses other → other.Before row → ¬ P other.column) ∧ row.column = name := by
  have hrows : FirstIn P (model.items.flatMap Item.columns) name ↔
      FirstIn P ((model.items.flatMap Item.splitRows).map Split.column) name := by
    rw [List.map_flatMap]
    refine firstIn_flatMap_congr fun item _ column => ?_
    rw [item.columns_eq, firstIn_eraseDups]
  rw [splitColumns, firstIn_eraseDups, hrows, firstIn_map]
  refine exists_congr fun row => ?_
  rw [firstIn_iff_of_pairwise (pairwise_splitRows hmodel) fun other => Split.Before.asymm]
  simp only [mem_splitRows hmodel, and_assoc]

end Model

end ItemScoring
