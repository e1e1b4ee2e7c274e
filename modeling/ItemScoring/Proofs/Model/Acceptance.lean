import Mathlib.Data.List.Nodup
import ItemScoring.Model.Basic
import ItemScoring.Proofs.Sequence

/-!
# What accepted tables are like

The checks of a model run over its tables row by row, with what they have seen so
far in an argument.  `RowsInOrder` is what they come to as a statement about the
tables (`checkRows_eq_ok_iff`), and `IsItem` what the items of an accepted model
are made of (`itemsFrom_eq_ok_iff`).
-/

namespace ItemScoring.ModelTables

/-! ### Single checks -/

theorem checkItem_eq_ok_iff {count item : Nat} :
    checkItem count item = .ok () ↔ 0 < item ∧ item ≤ count := by
  simp only [checkItem, ite_eq_right_iff, reduceCtorEq, imp_false, not_or]
  omega

theorem checkFinite_eq_ok_iff {parameter : Parameter} {value : Float} :
    checkFinite parameter value = .ok () ↔ value.isFinite = true := by
  simp [checkFinite]

theorem checkSlopes_eq_ok_iff {number : Nat} {slopes : List Float} :
    checkSlopes number slopes = .ok () ↔ ∀ slope ∈ slopes, slope.isFinite = true := by
  induction slopes generalizing number with
  | nil => simp [checkSlopes]
  | cons first rest ih =>
      simp only [checkSlopes, check_bind_eq_ok, checkFinite_eq_ok_iff, ih, List.forall_mem_cons]

theorem checkLabels_eq_ok_iff {count : Nat} {labels? : Option (List String)} :
    checkLabels count labels? = .ok () ↔ ∀ labels ∈ labels?, labels.length = count := by
  cases labels? <;> simp [checkLabels]

theorem checkSplits_eq_ok_iff {count : Nat} {rows : List Split} :
    checkSplits count rows = .ok () ↔
      ∀ row ∈ rows, (0 < row.item ∧ row.item ≤ count) ∧ row.threshold.isFinite = true := by
  induction rows with
  | nil => simp [checkSplits]
  | cons first rest ih =>
      simp only [checkSplits, check_bind_eq_ok, checkItem_eq_ok_iff, checkFinite_eq_ok_iff, ih,
        List.forall_mem_cons, and_assoc]

theorem checkLeaves_eq_ok_iff {count : Nat} {earlier : List (Nat × NodeId)}
    {rows : List LeafRow} : checkLeaves count earlier rows = .ok () ↔
      (∀ row ∈ rows, (0 < row.item ∧ row.item ≤ count) ∧ row.coefficient.isFinite = true) ∧
      (rows.map fun row => (row.item, row.node)).Nodup ∧
      ∀ key ∈ rows.map fun row => (row.item, row.node), key ∉ earlier := by
  induction rows generalizing earlier with
  | nil => simp [checkLeaves]
  | cons first rest ih =>
      rw [checkLeaves, check_bind_eq_ok, check_bind_eq_ok]
      dsimp only
      rw [throw_if_eq_ok, ih, checkItem_eq_ok_iff, checkFinite_eq_ok_iff, List.map_cons,
        ← nodup_cons_fresh, List.forall_mem_cons]
      tauto

theorem checkOffsets_eq_ok_iff {count : Nat} {earlier : List Nat} {rows : List OffsetRow} :
    checkOffsets count earlier rows = .ok () ↔
      (∀ row ∈ rows, (0 < row.item ∧ row.item ≤ count) ∧ row.offset.isFinite = true) ∧
      (rows.map OffsetRow.item).Nodup ∧ ∀ item ∈ rows.map OffsetRow.item, item ∉ earlier := by
  induction rows generalizing earlier with
  | nil => simp [checkOffsets]
  | cons first rest ih =>
      rw [checkOffsets, check_bind_eq_ok, check_bind_eq_ok]
      dsimp only
      rw [throw_if_eq_ok, ih, checkItem_eq_ok_iff, checkFinite_eq_ok_iff, List.map_cons,
        ← nodup_cons_fresh, List.forall_mem_cons]
      tauto

/-! ### All rows -/

/-- Every row belongs to an item and is finite, and nothing is given twice. -/
structure RowsInOrder (tables : ModelTables) : Prop where
  slopes : ∀ slope ∈ tables.slopes, slope.isFinite = true
  labels : ∀ labels ∈ tables.labels, labels.length = tables.itemCount
  leaves : ∀ row ∈ tables.leaves,
    (0 < row.item ∧ row.item ≤ tables.itemCount) ∧ row.coefficient.isFinite = true
  leavesOnce : (tables.leaves.map fun row => (row.item, row.node)).Nodup
  offsets : ∀ row ∈ tables.offsets,
    (0 < row.item ∧ row.item ≤ tables.itemCount) ∧ row.offset.isFinite = true
  offsetsOnce : (tables.offsets.map OffsetRow.item).Nodup
  splits : ∀ row ∈ tables.splits,
    (0 < row.item ∧ row.item ≤ tables.itemCount) ∧ row.threshold.isFinite = true

variable {tables : ModelTables}

theorem checkRows_eq_ok_iff : tables.checkRows = .ok () ↔ RowsInOrder tables := by
  rw [checkRows, check_bind_eq_ok, check_bind_eq_ok, check_bind_eq_ok, check_bind_eq_ok,
    checkSlopes_eq_ok_iff, checkLabels_eq_ok_iff, checkLeaves_eq_ok_iff, checkOffsets_eq_ok_iff,
    checkSplits_eq_ok_iff]
  constructor
  · rintro ⟨hslopes, hlabels, ⟨hleaves, hleavesOnce, -⟩, ⟨hoffsets, hoffsetsOnce, -⟩, hsplits⟩
    exact ⟨hslopes, hlabels, hleaves, hleavesOnce, hoffsets, hoffsetsOnce, hsplits⟩
  · rintro ⟨hslopes, hlabels, hleaves, hleavesOnce, hoffsets, hoffsetsOnce, hsplits⟩
    exact ⟨hslopes, hlabels, ⟨hleaves, hleavesOnce, by simp⟩, ⟨hoffsets, hoffsetsOnce, by simp⟩,
      hsplits⟩

/-! ### Items -/

/-- The item is made of the entry number `number` of the tables, counted from one. -/
structure IsItem (tables : ModelTables) (number : Nat) (slope : Float) (item : Item) : Prop where
  number_eq : item.number = number
  label_eq : item.label = tables.labelOf number
  slope_eq : item.slope = slope
  intercept_eq : tables.interceptOf number = .ok item.intercept

/-- There is one item per slope, in order. -/
theorem itemsFrom_eq_ok_iff {first : Nat} {slopes : List Float} {items : List Item} :
    tables.itemsFrom first slopes = .ok items ↔ items.length = slopes.length ∧
      ∀ i item slope, items[i]? = some item → slopes[i]? = some slope →
        IsItem tables (first + i) slope item := by
  induction slopes generalizing first items with
  | nil => simp [itemsFrom, eq_comm]
  | cons head rest ih =>
      simp only [itemsFrom, bind_eq_ok, pure, Except.pure, Except.ok.injEq]
      constructor
      · rintro ⟨intercept, hintercept, others, hothers, rfl⟩
        obtain ⟨hlength, hitems⟩ := ih.mp hothers
        refine ⟨by simp [hlength], fun i item slope hitem hslope => ?_⟩
        -- The rest counts its items from the next number on.
        cases i with
        | zero =>
            simp only [List.getElem?_cons_zero, Option.some.injEq] at hitem hslope
            subst hitem hslope
            exact ⟨rfl, rfl, rfl, hintercept⟩
        | succ i =>
            rw [List.getElem?_cons_succ] at hitem hslope
            have := hitems i item slope hitem hslope
            rwa [Nat.add_right_comm, Nat.add_assoc] at this
      · rintro ⟨hlength, hitems⟩
        cases items with
        | nil => simp at hlength
        | cons item others =>
            obtain ⟨hnumber, hlabel, hslope, hintercept⟩ := hitems 0 item head rfl rfl
            refine ⟨item.intercept, hintercept, others, ih.mpr ⟨by simpa using hlength, ?_⟩, ?_⟩
            · intro i other slope hother hslope
              have := hitems (i + 1) other slope hother hslope
              rwa [← Nat.add_assoc, Nat.add_right_comm] at this
            · cases item
              simp_all

end ItemScoring.ModelTables

namespace ItemScoring.Model

/-- A model is accepted if its rows are in order and all of its items have an
intercept. -/
theorem ofTables_eq_ok_iff {tables : ModelTables} {model : Model} :
    ofTables tables = .ok model ↔ tables.RowsInOrder ∧ model.tables = tables ∧
      tables.itemsFrom 1 tables.slopes = .ok model.items := by
  rw [ofTables, check_bind_eq_ok, ModelTables.checkRows_eq_ok_iff]
  simp only [bind_eq_ok, pure, Except.pure, Except.ok.injEq]
  constructor
  · rintro ⟨hrows, items, hitems, rfl⟩
    exact ⟨hrows, rfl, hitems⟩
  · rintro ⟨hrows, rfl, hitems⟩
    exact ⟨hrows, model.items, hitems, rfl⟩

variable {tables : ModelTables} {model : Model}

/-- The items of a model are numbered from one, with the slopes in order. -/
theorem isItem_of_getElem? (hmodel : ofTables tables = .ok model) {i : Nat}
    {item : Item} (hitem : model.items[i]? = some item) :
    ∃ slope, tables.slopes[i]? = some slope ∧ slope.isFinite = true ∧
      tables.IsItem (i + 1) slope item := by
  obtain ⟨hrows, -, hitems⟩ := ofTables_eq_ok_iff.mp hmodel
  obtain ⟨hlength, hitems⟩ := ModelTables.itemsFrom_eq_ok_iff.mp hitems
  obtain ⟨hlt, -⟩ := List.getElem?_eq_some_iff.mp hitem
  have hslope := List.getElem?_eq_getElem (hlength ▸ hlt : i < tables.slopes.length)
  refine ⟨_, hslope, hrows.slopes _ (List.mem_of_getElem? hslope), ?_⟩
  rw [Nat.add_comm]
  exact hitems i item _ hitem hslope

theorem exists_isItem (hmodel : ofTables tables = .ok model) {item : Item}
    (hmem : item ∈ model.items) : ∃ number slope, tables.IsItem number slope item := by
  obtain ⟨i, hi⟩ := List.mem_iff_getElem?.mp hmem
  obtain ⟨slope, -, -, hitem⟩ := isItem_of_getElem? hmodel hi
  exact ⟨i + 1, slope, hitem⟩

theorem itemCount_eq (hmodel : ofTables tables = .ok model) :
    model.itemCount = tables.slopes.length := by
  obtain ⟨-, -, hitems⟩ := ofTables_eq_ok_iff.mp hmodel
  exact (ModelTables.itemsFrom_eq_ok_iff.mp hitems).1

/-- Items are counted from one. -/
theorem map_number_items (hmodel : ofTables tables = .ok model) :
    model.items.map Item.number = List.range' 1 model.itemCount := by
  refine List.ext_getElem? fun i => ?_
  rw [List.getElem?_map]
  cases hitem : model.items[i]? with
  | some item =>
      obtain ⟨slope, -, -, hisItem⟩ := isItem_of_getElem? hmodel hitem
      have hlt : i < model.itemCount := (List.getElem?_eq_some_iff.mp hitem).1
      rw [Option.map_some, hisItem.number_eq, List.getElem?_range' hlt, Nat.one_mul, Nat.add_comm]
  | none =>
      have hge : model.itemCount ≤ i := List.getElem?_eq_none_iff.mp hitem
      rw [Option.map_none, List.getElem?_eq_none (by simpa using hge)]

end ItemScoring.Model

namespace ItemScoring

/-- Tables of an item that splits on the age, and of one without a tree. -/
def ageTables : ModelTables where
  slopes := [1.5, 2]
  labels := none
  leaves := [⟨1, 2, 0.5⟩, ⟨1, 3, -1⟩]
  offsets := [⟨2, 0.25⟩]
  splits := [⟨1, 1, some 2, some 3, "age", 40⟩]

/-- The model with these tables. -/
def ageModel : Model where
  tables := ageTables
  items := [
    ⟨1, "item1", 1.5, .dif ⟨ageTables.splits,
      [(3, .leaf (-1)), (2, .leaf 0.5), (1, .internal 2 3)],
      .branch 1 "age" 40 (.leaf 2 0.5) (.leaf 3 (-1))⟩⟩,
    ⟨2, "item2", 2, .flat 0.25⟩]

theorem ofTables_ageTables : Model.ofTables ageTables = .ok ageModel := by decide +kernel

end ItemScoring
