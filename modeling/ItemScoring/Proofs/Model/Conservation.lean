import ItemScoring.Proofs.Model.SplitRows
import ItemScoring.Proofs.Model.WellFormed
import ItemScoring.Proofs.Tree.Leaves

/-!
# Where the rows of a model end up

Accepted tables are taken apart item by item, and no row of them is lost on the way, used twice
or given to another item.  An item is made of the rows with its number (`MadeOfRows`): its tree has
its leaf rows as leaves and its split rows as splits, or its offset is that of its offset row.  As
every row has the number of exactly one item, the rows that all items are made of are the rows of
the tables again (`perm_rowsByItem`).

Split rows of an item without a tree are the only ones that nothing is made of.  The log has one
warning for each such item, with the number of its rows (`warnings_eq`).
-/

namespace ItemScoring

/-! ### The rows of an item -/

namespace Item

variable (item : Item)

/-- The leaf rows that the tree of the item comes from. -/
def leafRows : List LeafRow :=
  match item.intercept with
  | .dif tree => tree.shape.leaves.map fun (node, coefficient) => ⟨item.number, node, coefficient⟩
  | .flat _ => []

/-- The offset row of an item without a tree. -/
def offsetRows : List OffsetRow :=
  match item.intercept with
  | .dif _ => []
  | .flat offset => [⟨item.number, offset⟩]

end Item

namespace ModelTables

/-- The split rows of an item without a tree. -/
def unusedRows (tables : ModelTables) (item : Item) : List Split :=
  match item.intercept with
  | .dif _ => []
  | .flat _ => tables.splits.filter (·.item == item.number)

/-- The warning that the split rows of an item without a tree are not used. -/
def unusedWarning (tables : ModelTables) (item : Item) : LogEntry :=
  ⟨.warn, s!"Item {item.number} has no DIF coefficients; " ++
    s!"ignoring its {(tables.unusedRows item).length} split row(s)."⟩

/-- The item has the number, the slope and the label that belong to a position, which is counted
from zero. -/
structure Places (tables : ModelTables) (position : Nat) (item : Item) : Prop where
  number_eq : item.number = position + 1
  slope_eq : tables.slopes[position]? = some item.slope
  label_eq : ∀ labels ∈ tables.labels, labels[position]? = some item.label
  default_label : tables.labels = none → item.label = s!"item{position + 1}"

/-- The intercept of the item is made of all the rows with its number, and of no others. -/
inductive MadeOfRows (tables : ModelTables) (item : Item) : Prop
  | dif {tree : ItemTree} (intercept_eq : item.intercept = .dif tree)
      (leaves : tree.shape.leaves.Perm
        ((tables.leaves.filter (·.item == item.number)).map fun row =>
          (row.node, row.coefficient)))
      (kind?_leaf : ∀ node coefficient, tree.kind? node = some (.leaf coefficient) ↔
        ∃ row ∈ tables.leaves,
          row.item = item.number ∧ row.node = node ∧ row.coefficient = coefficient)
      (splits : tree.splits.Perm (tables.splits.filter (·.item == item.number)))
      (ascending : tree.splits.Pairwise fun first second => first.number < second.number)
      (offsets : tables.offsets.filter (·.item == item.number) = [])
  | flat {offset : Float} (intercept_eq : item.intercept = .flat offset)
      (offsets : tables.offsets.filter (·.item == item.number) = [⟨item.number, offset⟩])
      (leaves : tables.leaves.filter (·.item == item.number) = [])

variable {tables : ModelTables} {number : Nat} {slope : Float} {item : Item}

theorem IsItem.places {position : Nat} (hrows : RowsInOrder tables)
    (hslope : tables.slopes[position]? = some slope)
    (hitem : IsItem tables (position + 1) slope item) : Places tables position item where
  number_eq := hitem.number_eq
  slope_eq := by rw [hslope, hitem.slope_eq]
  label_eq := by
    intro labels hlabels
    obtain ⟨hlt, -⟩ := List.getElem?_eq_some_iff.mp hslope
    -- Accepted labels are as many as slopes, so the item has one of its own.
    have hlength : position < labels.length := by
      rw [hrows.labels labels hlabels]
      exact hlt
    have hsome : tables.labels = some labels := hlabels
    rw [hitem.label_eq, labelOf, hsome]
    simp [hlength]
  default_label := by
    intro hnone
    rw [hitem.label_eq, labelOf, hnone]

/-- An item with an offset has a single offset row. -/
theorem RowsInOrder.filter_offsets (hrows : RowsInOrder tables) {row : OffsetRow}
    (hrow : tables.offsetOf? number = some row) :
    tables.offsets.filter (·.item == number) = [⟨number, row.offset⟩] := by
  have hmem := List.mem_of_find?_eq_some hrow
  have hnumber : row.item = number := by simpa using List.find?_some hrow
  subst hnumber
  have hnodup : tables.offsets.Nodup := .of_map _ hrows.offsetsOnce
  -- Two rows of one item are the same row, so the rows of the item are the one that was found.
  apply List.perm_singleton.mp
  apply (List.perm_ext_iff_of_nodup (hnodup.filter _) (List.nodup_singleton _)).mpr
  intro other
  rw [List.mem_filter, List.mem_singleton, beq_iff_eq]
  constructor
  · rintro ⟨hother, hitem⟩
    exact List.inj_on_of_nodup_map hrows.offsetsOnce hother hmem hitem
  · intro heq
    subst heq
    exact ⟨hmem, rfl⟩

/-- The leaves of the tree of an item are its leaf rows. -/
theorem RowsInOrder.leaves_perm (hrows : RowsInOrder tables) {tree : ItemTree}
    (htree : ItemTree.ofRows (tables.splitsOf number) (tables.coefficientsOf number) = .ok tree) :
    tree.shape.leaves.Perm
      ((tables.leavesOf number).map fun row => (row.node, row.coefficient)) := by
  have hnodup : ((tables.leavesOf number).map fun row => (row.node, row.coefficient)).Nodup := by
    refine .of_map Prod.fst ?_
    rw [List.map_map]
    exact hrows.nodup_leafNodes
  apply (List.perm_ext_iff_of_nodup (.of_map _ (ItemTree.nodup_leaves htree)) hnodup).mpr
  rintro ⟨node, coefficient⟩
  rw [ItemTree.mem_leaves_iff htree, hrows.coefficientsOf_eq_some_iff]
  simp [leavesOf, and_assoc]

theorem IsItem.madeOfRows (hrows : RowsInOrder tables) (hitem : IsItem tables number slope item) :
    MadeOfRows tables item := by
  obtain ⟨rfl, -, -, hintercept⟩ := hitem
  -- With leaf rows an item has a tree, without them an offset.
  cases hkind : item.intercept with
  | dif tree =>
      rw [hkind] at hintercept
      obtain ⟨-, hoffset, htree⟩ := interceptOf_dif_iff.mp hintercept
      obtain ⟨-, -, -, hsplits, -⟩ := ItemTree.ofRows_eq_ok_iff.mp htree
      refine .dif hkind (hrows.leaves_perm htree) ?_ ?_ (ItemTree.pairwise_splits htree) ?_
      · intro node coefficient
        rw [ItemTree.kind?_eq_some_iff htree, ← hrows.coefficientsOf_eq_some_iff]
        constructor
        · intro hrole
          cases hrole with
          | leaf hvalue => exact hvalue
        · exact .leaf
      · rw [hsplits]
        exact ItemTree.sortRows_perm _
      · rw [List.filter_eq_nil_iff]
        exact List.find?_eq_none.mp hoffset
  | flat offset =>
      rw [hkind] at hintercept
      obtain ⟨hleaves, row, hrow, rfl⟩ := interceptOf_flat_iff.mp hintercept
      exact .flat hkind (hrows.filter_offsets hrow) hleaves

theorem IsItem.isDif_iff (hitem : IsItem tables number slope item) :
    item.isDif = true ↔ ∃ row ∈ tables.leaves, row.item = item.number := by
  obtain ⟨rfl, -, -, hintercept⟩ := hitem
  rw [← leavesOf_ne_nil_iff, Item.isDif, Item.tree?]
  cases hkind : item.intercept with
  | dif tree =>
      rw [hkind] at hintercept
      obtain ⟨hleaves, -⟩ := interceptOf_dif_iff.mp hintercept
      simp [hleaves]
  | flat offset =>
      rw [hkind] at hintercept
      obtain ⟨hleaves, -⟩ := interceptOf_flat_iff.mp hintercept
      simp [hleaves]

namespace MadeOfRows

theorem leafRows_perm (h : MadeOfRows tables item) :
    (tables.leavesOf item.number).Perm item.leafRows := by
  cases h with
  | dif intercept_eq leaves =>
      have hsame := leaves.symm.map fun (node, coefficient) =>
        (⟨item.number, node, coefficient⟩ : LeafRow)
      rw [List.map_map] at hsame
      rw [Item.leafRows, intercept_eq]
      -- The number that the leaves of a tree lack is the one that all rows of the item have.
      convert hsame using 1
      refine (List.map_id _).symm.trans (List.map_congr_left fun row hrow => ?_)
      obtain ⟨number, node, coefficient⟩ := row
      obtain rfl : number = item.number := eq_of_beq (List.mem_filter.mp hrow).2
      rfl
  | flat intercept_eq offsets leaves =>
      have hnil : tables.leavesOf item.number = [] := leaves
      rw [Item.leafRows, intercept_eq, hnil]

theorem filter_offsets_eq (h : MadeOfRows tables item) :
    tables.offsets.filter (·.item == item.number) = item.offsetRows := by
  cases h with
  | dif intercept_eq _ _ _ _ offsets => rw [Item.offsetRows, intercept_eq, offsets]
  | flat intercept_eq offsets => rw [Item.offsetRows, intercept_eq, offsets]

theorem splitRows_perm (h : MadeOfRows tables item) :
    (tables.splitsOf item.number).Perm (item.splitRows ++ tables.unusedRows item) := by
  cases h with
  | dif intercept_eq _ _ splits =>
      rw [Item.splitRows, unusedRows, intercept_eq, List.append_nil]
      exact splits.symm
  | flat intercept_eq =>
      rw [Item.splitRows, unusedRows, intercept_eq]
      exact List.Perm.refl _

end MadeOfRows

end ModelTables

/-! ### All items -/

/-- Rows that are put together key by key are the same rows. -/
theorem flatMap_filter_perm {α κ : Type} [DecidableEq κ] (key : α → κ) {keys : List κ}
    (hdistinct : keys.Nodup) {rows : List α} (hkeys : ∀ row ∈ rows, key row ∈ keys) :
    (keys.flatMap fun k => rows.filter fun row => key row == k).Perm rows := by
  induction keys generalizing rows with
  | nil =>
      have hnil : rows = [] := List.eq_nil_iff_forall_not_mem.mpr fun row hrow => by
        simpa using hkeys row hrow
      rw [hnil, List.flatMap_nil]
  | cons first rest ih =>
      obtain ⟨hfirst, hrest⟩ := List.nodup_cons.mp hdistinct
      -- The rows with another key than the first one are those of the rest of the keys.
      have hothers : ∀ k ∈ rest, (rows.filter fun row => key row == k) =
          (rows.filter fun row => !(key row == first)).filter fun row => key row == k := by
        intro k hk
        rw [List.filter_filter]
        refine List.filter_congr fun row _ => ?_
        by_cases hrow : key row = k
        · have hne : key row ≠ first := fun h => hfirst (h ▸ hrow ▸ hk)
          simp [hrow, hrow ▸ hne]
        · simp [hrow]
      rw [List.flatMap_cons, List.flatMap_congr hothers]
      refine (List.Perm.append_left _ (ih hrest ?_)).trans (List.filter_append_perm _ rows)
      intro row hrow
      obtain ⟨hmem, hne⟩ := List.mem_filter.mp hrow
      exact (List.mem_cons.mp (hkeys row hmem)).resolve_left (by simpa using hne)

namespace Model

open ModelTables

variable {tables : ModelTables} {model : Model}

theorem nodup_numbers (hmodel : ofTables tables = .ok model) :
    (model.items.map Item.number).Nodup :=
  map_number_items hmodel ▸ List.nodup_range' 1

theorem mem_numbers (hmodel : ofTables tables = .ok model) {number : Nat} :
    number ∈ model.items.map Item.number ↔ 0 < number ∧ number ≤ tables.itemCount := by
  rw [map_number_items hmodel, List.mem_range'_1, itemCount_eq hmodel, ModelTables.itemCount]
  omega

/-- Rows with the number of an item are the rows of all items, item by item. -/
theorem perm_rowsByItem {α : Type} (hmodel : ofTables tables = .ok model) (itemOf : α → Nat)
    {rows : List α} (hrows : ∀ row ∈ rows, 0 < itemOf row ∧ itemOf row ≤ tables.itemCount) :
    rows.Perm
      (model.items.flatMap fun item => rows.filter fun row => itemOf row == item.number) := by
  have hcovered : ∀ row ∈ rows, itemOf row ∈ model.items.map Item.number := by
    intro row hrow
    exact (mem_numbers hmodel).mpr (hrows row hrow)
  have hperm := flatMap_filter_perm itemOf (nodup_numbers hmodel) hcovered
  rw [List.flatMap_map] at hperm
  exact hperm.symm

theorem madeOfRows (hmodel : ofTables tables = .ok model) {item : Item}
    (hitem : item ∈ model.items) : MadeOfRows tables item := by
  obtain ⟨hrows, -⟩ := ofTables_eq_ok_iff.mp hmodel
  obtain ⟨number, slope, hisItem⟩ := exists_isItem hmodel hitem
  exact hisItem.madeOfRows hrows

theorem leaves_perm (hmodel : ofTables tables = .ok model) :
    tables.leaves.Perm (model.items.flatMap Item.leafRows) := by
  obtain ⟨hrows, -⟩ := ofTables_eq_ok_iff.mp hmodel
  have hgrouped : tables.leaves.Perm
      (model.items.flatMap fun item => tables.leavesOf item.number) :=
    perm_rowsByItem hmodel LeafRow.item fun row hrow => (hrows.leaves row hrow).1
  refine hgrouped.trans (.flatMap_left _ ?_)
  intro item hitem
  exact (madeOfRows hmodel hitem).leafRows_perm

theorem offsets_perm (hmodel : ofTables tables = .ok model) :
    tables.offsets.Perm (model.items.flatMap Item.offsetRows) := by
  obtain ⟨hrows, -⟩ := ofTables_eq_ok_iff.mp hmodel
  have hgrouped : tables.offsets.Perm
      (model.items.flatMap fun item => tables.offsets.filter (·.item == item.number)) :=
    perm_rowsByItem hmodel OffsetRow.item fun row hrow => (hrows.offsets row hrow).1
  refine hgrouped.trans (.flatMap_left _ ?_)
  intro item hitem
  rw [(madeOfRows hmodel hitem).filter_offsets_eq]

theorem splits_perm (hmodel : ofTables tables = .ok model) :
    tables.splits.Perm
      (model.items.flatMap Item.splitRows ++ model.items.flatMap tables.unusedRows) := by
  obtain ⟨hrows, -⟩ := ofTables_eq_ok_iff.mp hmodel
  have hgrouped : tables.splits.Perm
      (model.items.flatMap fun item => tables.splitsOf item.number) :=
    perm_rowsByItem hmodel Split.item fun row hrow => (hrows.splits row hrow).1
  have hparts : (model.items.flatMap fun item => tables.splitsOf item.number).Perm
      (model.items.flatMap fun item => item.splitRows ++ tables.unusedRows item) := by
    refine .flatMap_left _ ?_
    intro item hitem
    exact (madeOfRows hmodel hitem).splitRows_perm
  exact hgrouped.trans (hparts.trans (List.flatMap_append_perm _ _ _).symm)

/-! ### Numbers of rows -/

theorem length_leafRows (items : List Item) : (items.flatMap Item.leafRows).length =
    ((items.filterMap Item.tree?).map ItemTree.leafCount).sum := by
  induction items with
  | nil => rfl
  | cons item rest ih =>
      rw [List.flatMap_cons, List.length_append, ih, List.filterMap_cons]
      cases hkind : item.intercept with
      | dif tree =>
          simp [Item.leafRows, Item.tree?, hkind, SplitTree.length_leaves, ItemTree.leafCount]
      | flat offset => simp [Item.leafRows, Item.tree?, hkind]

theorem length_offsetRows (items : List Item) :
    (items.flatMap Item.offsetRows).length = items.countP fun item => !item.isDif := by
  induction items with
  | nil => rfl
  | cons item rest ih =>
      rw [List.flatMap_cons, List.length_append, ih, List.countP_cons]
      cases hkind : item.intercept with
      | dif tree => simp [Item.offsetRows, Item.isDif, Item.tree?, hkind]
      | flat offset => simp [Item.offsetRows, Item.isDif, Item.tree?, hkind, Nat.add_comm]

/-! ### Split rows and warnings -/

/-- A split row is one of the tree or one of the warning of the item that it belongs to. -/
theorem mem_rows_iff (hmodel : ofTables tables = .ok model) {row : Split}
    (hrow : row ∈ tables.splits) {item : Item} (hitem : item ∈ model.items) :
    row ∈ item.splitRows ∨ row ∈ tables.unusedRows item ↔ item.number = row.item := by
  rw [← List.mem_append, ← (madeOfRows hmodel hitem).splitRows_perm.mem_iff, mem_splitsOf]
  constructor
  · intro h
    exact h.2.symm
  · intro h
    exact ⟨hrow, h.symm⟩

/-- If a single member has one of two properties, it has just one of them, and no other does. -/
theorem existsUnique_of_single {α : Type} {P Q : α → Prop} {members : List α} {a : α}
    (ha : a ∈ members) (hP : P a) (hQ : ¬ Q a) (hsingle : ∀ b ∈ members, P b ∨ Q b → b = a) :
    (∃! b, b ∈ members ∧ P b) ∧ ¬ ∃! b, b ∈ members ∧ Q b := by
  constructor
  · refine ⟨a, ⟨ha, hP⟩, ?_⟩
    intro b hb
    exact hsingle b hb.1 (Or.inl hb.2)
  · intro ⟨b, hb, _⟩
    have hsame := hsingle b hb.1 (Or.inr hb.2)
    exact hQ (hsame ▸ hb.2)

/-- Every split row is in the tree of one item, or in the warning of one. -/
theorem split_place (hmodel : ofTables tables = .ok model) {row : Split}
    (hrow : row ∈ tables.splits) :
    Xor (∃! item, item ∈ model.items ∧ row ∈ item.splitRows)
      (∃! item, item ∈ model.items ∧ row ∈ tables.unusedRows item) := by
  obtain ⟨hrows, -⟩ := ofTables_eq_ok_iff.mp hmodel
  obtain ⟨item, hitem, hnumber⟩ :=
    List.mem_map.mp ((mem_numbers hmodel).mpr (hrows.splits row hrow).1)
  have hplace := (mem_rows_iff hmodel hrow hitem).mpr hnumber
  -- A row that is in two places is a row of two items, which have its number both.
  have hsingle : ∀ other ∈ model.items, row ∈ other.splitRows ∨ row ∈ tables.unusedRows other →
      other = item := by
    intro other hother hplace'
    have hnumber' := (mem_rows_iff hmodel hrow hother).mp hplace'
    exact List.inj_on_of_nodup_map (nodup_numbers hmodel) hother hitem
      (hnumber'.trans hnumber.symm)
  cases hkind : item.intercept with
  | dif tree =>
      have hunused : row ∉ tables.unusedRows item := by simp [unusedRows, hkind]
      exact Or.inl (existsUnique_of_single hitem (hplace.resolve_right hunused) hunused hsingle)
  | flat offset =>
      have hsplit : row ∉ item.splitRows := by simp [Item.splitRows, hkind]
      refine Or.inr (existsUnique_of_single hitem (hplace.resolve_left hsplit) hsplit ?_)
      intro other hother hplace'
      exact hsingle other hother hplace'.symm

/-- Items that are all formed have all their entries in the log. -/
theorem entriesFrom_eq {first : Nat} {slopes : List Float} {items : List Item}
    (hitems : tables.itemsFrom first slopes = .ok items) : tables.entriesFrom first slopes =
      items.flatMap fun item => tables.entriesOf item.number item.intercept := by
  induction slopes generalizing first items with
  | nil =>
      obtain rfl := Except.ok.inj hitems
      rfl
  | cons slope rest ih =>
      obtain ⟨intercept, hintercept, others, hothers, hcons⟩ :=
        (bind_eq_ok.mp hitems).imp fun _ h => h.imp_right bind_eq_ok.mp
      obtain rfl := Except.ok.inj hcons
      simp only [entriesFrom, hintercept, ih hothers, List.flatMap_cons]

theorem log_eq (hmodel : ofTables tables = .ok model) : model.log =
    model.items.flatMap fun item => tables.entriesOf item.number item.intercept := by
  obtain ⟨hrows, rfl, hitems⟩ := ofTables_eq_ok_iff.mp hmodel
  rw [Model.log, ModelTables.log, checkRows_eq_ok_iff.mpr hrows, entriesFrom_eq hitems]

theorem filter_entriesOf (tables : ModelTables) (item : Item) :
    (tables.entriesOf item.number item.intercept).filter (·.level == .warn) =
      if (tables.unusedRows item).isEmpty then [] else [tables.unusedWarning item] := by
  cases hkind : item.intercept with
  | dif tree => simp [entriesOf, unusedRows, hkind]
  | flat offset =>
      have hunused : tables.unusedRows item = tables.splitsOf item.number := by
        rw [unusedRows, hkind]
        rfl
      rw [unusedWarning, hunused, entriesOf]
      cases tables.splitsOf item.number <;> simp

/-- There is one warning for each item without a tree that has split rows, in item order. -/
theorem warnings_eq (hmodel : ofTables tables = .ok model) : model.log.filter (·.level == .warn) =
    (model.items.filter fun item => !(tables.unusedRows item).isEmpty).map
      tables.unusedWarning := by
  rw [log_eq hmodel]
  induction model.items with
  | nil => rfl
  | cons item rest ih =>
      rw [List.flatMap_cons, List.filter_append, ih, filter_entriesOf, List.filter_cons]
      cases (tables.unusedRows item).isEmpty <;> rfl

/-! ### The whole model -/

/-- Every row of the tables is in its place in the model, and no other rows are. -/
structure KeepsRows (tables : ModelTables) (model : Model) : Prop where
  length_eq : model.items.length = tables.slopes.length
  places : ∀ position item, model.items[position]? = some item → tables.Places position item
  isDif_iff : ∀ item ∈ model.items,
    item.isDif = true ↔ ∃ row ∈ tables.leaves, row.item = item.number
  made : ∀ item ∈ model.items, tables.MadeOfRows item
  leaves_perm : tables.leaves.Perm (model.items.flatMap Item.leafRows)
  offsets_perm : tables.offsets.Perm (model.items.flatMap Item.offsetRows)
  splits_perm : tables.splits.Perm
    (model.items.flatMap Item.splitRows ++ model.items.flatMap tables.unusedRows)
  leaf_count : tables.leaves.length =
    ((model.items.filterMap Item.tree?).map ItemTree.leafCount).sum
  offset_count : tables.offsets.length = model.items.countP fun item => !item.isDif
  split_place : ∀ row ∈ tables.splits,
    Xor (∃! item, item ∈ model.items ∧ row ∈ item.splitRows)
      (∃! item, item ∈ model.items ∧ row ∈ tables.unusedRows item)
  warnings_eq : model.log.filter (·.level == .warn) =
    (model.items.filter fun item => !(tables.unusedRows item).isEmpty).map tables.unusedWarning
  ascending : model.items.Pairwise fun first second => first.number < second.number

/-- A model keeps the rows of the tables that it is made of. -/
theorem ofTables_keepsRows (hmodel : ofTables tables = .ok model) : KeepsRows tables model where
  length_eq := itemCount_eq hmodel
  places := by
    intro position item hitem
    obtain ⟨hrows, -⟩ := ofTables_eq_ok_iff.mp hmodel
    obtain ⟨slope, hslope, -, hisItem⟩ := isItem_of_getElem? hmodel hitem
    exact hisItem.places hrows hslope
  isDif_iff := by
    intro item hitem
    obtain ⟨number, slope, hisItem⟩ := exists_isItem hmodel hitem
    exact hisItem.isDif_iff
  made := fun item hitem => madeOfRows hmodel hitem
  leaves_perm := leaves_perm hmodel
  offsets_perm := offsets_perm hmodel
  splits_perm := splits_perm hmodel
  leaf_count := (leaves_perm hmodel).length_eq.trans (length_leafRows model.items)
  offset_count := (offsets_perm hmodel).length_eq.trans (length_offsetRows model.items)
  split_place := fun row hrow => split_place hmodel hrow
  warnings_eq := warnings_eq hmodel
  ascending := pairwise_items hmodel

/-- Tables in which the item without a tree has split rows, one of them twice. -/
def strayTables : ModelTables where
  slopes := [1.5, 2]
  labels := some ["mood", "sleep"]
  leaves := [⟨1, 3, -1⟩, ⟨1, 2, 0.5⟩]
  offsets := [⟨2, 0.25⟩]
  splits := [⟨2, 1, some 2, none, "age", 30⟩, ⟨1, 1, some 2, some 3, "age", 40⟩,
    ⟨2, 1, some 2, none, "age", 30⟩]

/-- The model with these tables. -/
def strayModel : Model where
  tables := strayTables
  items := [
    ⟨1, "mood", 1.5, .dif ⟨[⟨1, 1, some 2, some 3, "age", 40⟩],
      [(3, .leaf (-1)), (2, .leaf 0.5), (1, .internal 2 3)],
      .branch 1 "age" 40 (.leaf 2 0.5) (.leaf 3 (-1))⟩⟩,
    ⟨2, "sleep", 2, .flat 0.25⟩]

/-- Both rows of the item without a tree are in its warning. -/
theorem ofTables_keepsRows_strayTables : ofTables strayTables = .ok strayModel ∧
    KeepsRows strayTables strayModel ∧ strayModel.log.filter (·.level == .warn) =
      [⟨.warn, "Item 2 has no DIF coefficients; ignoring its 2 split row(s)."⟩] := by
  have hmodel : ofTables strayTables = .ok strayModel := by decide +kernel
  exact ⟨hmodel, ofTables_keepsRows hmodel, by decide +kernel⟩

end Model

end ItemScoring
