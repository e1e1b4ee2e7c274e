import ItemScoring.Prediction.Equation
import ItemScoring.Proofs.Model.Acceptance
import ItemScoring.Proofs.Tree.Acceptance
import ItemScoring.Proofs.Tree.Scoring

/-!
# Intercepts by plain descent

The intercept of an item on a record can be read off the tables row by row:
an offset row gives it outright; otherwise a walk from the root goes down the split
rows of the item, to the left where the value is at most the threshold, until it
comes to a leaf row (`Descends`, `HasIntercept`).

In an accepted model the walk and the tree of the item agree (`Descends.select_eq`,
`descends_of_select`), so there is exactly one such intercept, and it is what the
terms of the item's equation add up to (`IsItem.exists_intercept`).
-/

namespace ItemScoring

namespace ModelTables

variable {tables : ModelTables} {item : Nat}

/-! ### The rows of an item -/

theorem leavesOf_ne_nil_iff :
    tables.leavesOf item ≠ [] ↔ ∃ row ∈ tables.leaves, row.item = item := by
  simp [leavesOf]

theorem offsetOf?_eq_none_iff :
    tables.offsetOf? item = none ↔ ¬ ∃ row ∈ tables.offsets, row.item = item := by
  simp [offsetOf?]

theorem mem_splitsOf {row : Split} :
    row ∈ tables.splitsOf item ↔ row ∈ tables.splits ∧ row.item = item := by
  simp [splitsOf]

/-- No node of an item has two leaf rows. -/
theorem RowsInOrder.nodup_leafNodes (h : RowsInOrder tables) :
    ((tables.leavesOf item).map LeafRow.node).Nodup := by
  -- Paired with the item they are nodes of, the nodes are part of a list without repeats.
  refine List.Nodup.of_map (fun node => (item, node)) ?_
  have hsublist := h.leavesOnce.sublist
    ((List.filter_sublist (p := fun row : LeafRow => row.item == item)).map _)
  rw [List.map_map]
  convert hsublist using 1
  refine List.map_congr_left fun row hrow => ?_
  simp [eq_of_beq (List.mem_filter.mp hrow).2]

/-- The coefficients of an item are those of its leaf rows. -/
theorem RowsInOrder.coefficientsOf_eq_some_iff (h : RowsInOrder tables) {node : NodeId}
    {value : Float} : (tables.coefficientsOf item)[node]? = some value ↔
      ∃ row ∈ tables.leaves, row.item = item ∧ row.node = node ∧ row.coefficient = value := by
  have hdistinct : (((tables.leavesOf item).map fun row => (row.node, row.coefficient)).map
      Prod.fst).Nodup := by
    rw [List.map_map]
    exact h.nodup_leafNodes
  rw [coefficientsOf, Coefficients.getElem?_ofEntries hdistinct]
  simp [leavesOf, and_assoc]

/-! ### Walks over rows -/

/-- Going down the split rows of an item from a node, a record comes to a leaf with
this coefficient. -/
inductive Descends (tables : ModelTables) (item : Nat) (record : Record) :
    NodeId → Float → Prop
  | leaf {row : LeafRow} (mem : row ∈ tables.leaves) (of_item : row.item = item) :
      Descends tables item record row.node row.coefficient
  | low {row : Split} {value coefficient : Float} {next : NodeId} (mem : row ∈ tables.splits)
      (of_item : row.item = item) (value_eq : record.value? row.column = some value)
      (le : value ≤ row.threshold) (next_eq : row.left = some next)
      (rest : Descends tables item record next coefficient) :
      Descends tables item record row.number coefficient
  | high {row : Split} {value coefficient : Float} {next : NodeId} (mem : row ∈ tables.splits)
      (of_item : row.item = item) (value_eq : record.value? row.column = some value)
      (not_le : ¬ value ≤ row.threshold) (next_eq : row.right = some next)
      (rest : Descends tables item record next coefficient) :
      Descends tables item record row.number coefficient

/-- The intercept of an item on a record: its offset, or the coefficient of the leaf
that a walk from the root comes to. -/
inductive HasIntercept (tables : ModelTables) (item : Nat) (record : Record) : Float → Prop
  | offset {row : OffsetRow} (mem : row ∈ tables.offsets) (of_item : row.item = item) :
      HasIntercept tables item record row.offset
  | leaf {coefficient : Float} (walk : Descends tables item record rootId coefficient) :
      HasIntercept tables item record coefficient

/-- Every walk ends at a leaf row of the item. -/
theorem Descends.leavesOf_ne_nil {record : Record} {node : NodeId} {coefficient : Float}
    (h : Descends tables item record node coefficient) : tables.leavesOf item ≠ [] := by
  induction h with
  | leaf mem of_item => exact leavesOf_ne_nil_iff.mpr ⟨_, mem, of_item⟩
  | low _ _ _ _ _ _ ih => exact ih
  | high _ _ _ _ _ _ ih => exact ih

/-! ### Walks and trees -/

/-- What it takes for an item to have a tree. -/
theorem interceptOf_dif_iff {tree : ItemTree} :
    tables.interceptOf item = .ok (.dif tree) ↔ tables.leavesOf item ≠ [] ∧
      tables.offsetOf? item = none ∧
      ItemTree.ofRows (tables.splitsOf item) (tables.coefficientsOf item) = .ok tree := by
  rw [interceptOf]
  cases tables.leavesOf item with
  | nil => cases tables.offsetOf? item <;> simp
  | cons first rest =>
      cases tables.offsetOf? item with
      | some row => simp
      | none =>
          cases ItemTree.ofRows (tables.splitsOf item) (tables.coefficientsOf item) <;> simp

/-- What it takes for an item to have an offset. -/
theorem interceptOf_flat_iff {offset : Float} :
    tables.interceptOf item = .ok (.flat offset) ↔ tables.leavesOf item = [] ∧
      ∃ row, tables.offsetOf? item = some row ∧ row.offset = offset := by
  rw [interceptOf]
  cases tables.leavesOf item with
  | nil => cases tables.offsetOf? item <;> simp
  | cons first rest =>
      cases tables.offsetOf? item with
      | some row => simp
      | none =>
          cases ItemTree.ofRows (tables.splitsOf item) (tables.coefficientsOf item) <;> simp

variable {record : Record}

/-- A walk over the rows goes where descending in the tree goes. -/
theorem Descends.select_eq (hrows : RowsInOrder tables) {tree : ItemTree}
    (htree : ItemTree.ofRows (tables.splitsOf item) (tables.coefficientsOf item) = .ok tree)
    {node : NodeId} {coefficient : Float} (h : Descends tables item record node coefficient)
    {part : SplitTree} (hpart : part.Follows
      (ItemTree.table (ItemTree.sortRows (tables.splitsOf item)) (tables.coefficientsOf item)))
    (hid : part.id = node) : part.select record = .ok coefficient := by
  obtain ⟨hdistinct, hchecks, -⟩ := ItemTree.ofRows_eq_ok_iff.mp htree
  -- The walk goes down the rows; at each of them the tree has a branch that goes on with its
  -- children.
  induction h generalizing part with
  | @leaf row mem of_item =>
      have hvalue := hrows.coefficientsOf_eq_some_iff.mpr ⟨row, mem, of_item, rfl, rfl⟩
      rw [hpart.eq_leaf hid (ItemTree.resolve_leaf_iff.mpr hvalue), SplitTree.select]
  | @low row value coefficient next mem of_item value_eq le next_eq rest ih =>
      have hrow := mem_splitsOf.mpr ⟨mem, of_item⟩
      obtain ⟨left, right, hleft, hright⟩ := ItemTree.exists_children (hchecks row hrow)
      have hresolved := ItemTree.resolve_row hdistinct hrow (hchecks row hrow) hleft hright
      obtain ⟨low, high, rfl, hlow, -, hlowid, -⟩ := hpart.eq_branch hid hresolved
      rw [SplitTree.select, Record.lookup, value_eq, ok_bind, if_pos le]
      exact ih hlow (hlowid.trans (Option.some.inj (hleft.symm.trans next_eq)))
  | @high row value coefficient next mem of_item value_eq not_le next_eq rest ih =>
      have hrow := mem_splitsOf.mpr ⟨mem, of_item⟩
      obtain ⟨left, right, hleft, hright⟩ := ItemTree.exists_children (hchecks row hrow)
      have hresolved := ItemTree.resolve_row hdistinct hrow (hchecks row hrow) hleft hright
      obtain ⟨low, high, rfl, -, hhigh, -, hhighid⟩ := hpart.eq_branch hid hresolved
      rw [SplitTree.select, Record.lookup, value_eq, ok_bind, if_neg not_le]
      exact ih hhigh (hhighid.trans (Option.some.inj (hright.symm.trans next_eq)))

/-- Descending in the tree goes where a walk over the rows goes. -/
theorem descends_of_select (hrows : RowsInOrder tables)
    (hdistinct : ((tables.splitsOf item).map Split.number).Nodup) {part : SplitTree}
    (hpart : part.Follows
      (ItemTree.table (ItemTree.sortRows (tables.splitsOf item)) (tables.coefficientsOf item)))
    {coefficient : Float} (h : part.select record = .ok coefficient) :
    Descends tables item record part.id coefficient := by
  -- Here the tree leads, and each of its branches is a row by `ItemTree.resolve_split_iff`.
  induction part with
  | leaf id found =>
      obtain rfl := Except.ok.inj h
      obtain ⟨row, mem, of_item, rfl, rfl⟩ :=
        hrows.coefficientsOf_eq_some_iff.mp (ItemTree.resolve_leaf_iff.mp hpart)
      exact .leaf mem of_item
  | branch id column threshold left right ihleft ihright =>
      obtain ⟨-, row, hrow, rfl, hleft, hright, rfl, rfl⟩ :=
        (ItemTree.resolve_split_iff (ItemTree.nodup_sortRows hdistinct)).mp hpart.1
      obtain ⟨mem, of_item⟩ := mem_splitsOf.mp (ItemTree.mem_sortRows.mp hrow)
      rw [SplitTree.select, bind_eq_ok] at h
      obtain ⟨value, hvalue, h⟩ := h
      have hlookup : record.value? row.column = some value := by
        rw [Record.lookup] at hvalue
        split at hvalue <;> simp_all
      by_cases hle : value ≤ row.threshold
      · rw [if_pos hle] at h
        exact .low mem of_item hlookup hle hleft (ihleft hpart.2.1 h)
      · rw [if_neg hle] at h
        exact .high mem of_item hlookup hle hright (ihright hpart.2.2 h)

/-! ### What the terms of an item add up to -/

/-- Every number that the tree of an item reads is finite, if the columns are. -/
theorem finiteOn_of_follows (hrows : RowsInOrder tables)
    (hdistinct : ((tables.splitsOf item).map Split.number).Nodup) {part : SplitTree}
    (hpart : part.Follows
      (ItemTree.table (ItemTree.sortRows (tables.splitsOf item)) (tables.coefficientsOf item)))
    (hcolumns : ∀ row ∈ tables.splitsOf item,
      ∃ value, record.value? row.column = some value ∧ value.isFinite = true) :
    part.FiniteOn record := by
  induction part with
  | leaf id coefficient =>
      obtain ⟨row, mem, -, -, rfl⟩ :=
        hrows.coefficientsOf_eq_some_iff.mp (ItemTree.resolve_leaf_iff.mp hpart)
      exact (hrows.leaves row mem).2
  | branch id column threshold left right ihleft ihright =>
      obtain ⟨-, row, hrow, -, -, -, rfl, rfl⟩ :=
        (ItemTree.resolve_split_iff (ItemTree.nodup_sortRows hdistinct)).mp hpart.1
      have hmem := ItemTree.mem_sortRows.mp hrow
      exact ⟨(hrows.splits row (mem_splitsOf.mp hmem).1).2, hcolumns row hmem,
        ihleft hpart.2.1, ihright hpart.2.2⟩

/-- The columns of an item are those of its split rows, if these make up a tree. -/
theorem mem_columns_iff {tree : ItemTree}
    (htree : ItemTree.ofRows (tables.splitsOf item) (tables.coefficientsOf item) = .ok tree)
    {column : String} :
    column ∈ tree.columns ↔ ∃ row ∈ tables.splitsOf item, row.column = column := by
  obtain ⟨-, -, -, hsplits⟩ := ItemTree.ofRows_eq_ok_iff.mp htree
  simp [ItemTree.columns, hsplits, List.mem_eraseDups, ItemTree.mem_sortRows]

theorem not_descends_of_nil (hnil : tables.leavesOf item = []) {node : NodeId}
    {coefficient : Float} : ¬ Descends tables item record node coefficient :=
  fun h => h.leavesOf_ne_nil hnil

/-- The intercept of an item without leaf rows is the one of its offset row. -/
theorem hasIntercept_flat_iff (hrows : RowsInOrder tables) (hnil : tables.leavesOf item = [])
    {row : OffsetRow} (hoffset : tables.offsetOf? item = some row) {c : Float} :
    HasIntercept tables item record c ↔ c = row.offset := by
  have hmem := List.mem_of_find?_eq_some hoffset
  have hnumber : row.item = item := by simpa using List.find?_some hoffset
  constructor
  · intro h
    cases h with
    | @offset again hagain of_item =>
        have hsame : again = row := List.inj_on_of_nodup_map hrows.offsetsOnce hagain hmem
          (of_item.trans hnumber.symm)
        rw [hsame]
    | leaf walk => exact absurd walk (not_descends_of_nil hnil)
  · intro heq
    subst heq
    exact .offset hmem hnumber

/-- The intercept of an item without offset row is the one that its tree selects. -/
theorem hasIntercept_dif_iff (hrows : RowsInOrder tables)
    (hoffset : tables.offsetOf? item = none) {tree : ItemTree}
    (htree : ItemTree.ofRows (tables.splitsOf item) (tables.coefficientsOf item) = .ok tree)
    {selected : Float} (hselect : tree.shape.select record = .ok selected) {c : Float} :
    HasIntercept tables item record c ↔ c = selected := by
  obtain ⟨hdistinct, -, hdescribes, -⟩ := ItemTree.ofRows_eq_ok_iff.mp htree
  constructor
  · intro h
    cases h with
    -- The item has no offset row, so only a walk can end in an intercept.
    | @offset row mem of_item =>
        have hother := List.find?_eq_none.mp hoffset row mem
        simp [of_item] at hother
    | leaf walk =>
        have hwalk := walk.select_eq hrows htree hdescribes.follows hdescribes.root
        exact Except.ok.inj (hwalk.symm.trans hselect)
  · intro heq
    subst heq
    have hwalk := descends_of_select hrows hdistinct hdescribes.follows hselect
    rw [hdescribes.root] at hwalk
    exact .leaf hwalk

/-- An item has exactly one intercept on a record with finite values in its columns,
and the terms of its equation add just that intercept. -/
theorem IsItem.exists_intercept (hrows : RowsInOrder tables) {slope : Float} {entry : Item}
    (hitem : IsItem tables item slope entry)
    (hcolumns : ∀ column ∈ entry.columns,
      ∃ value, record.value? column = some value ∧ value.isFinite = true) :
    ∃ c values, (∀ other, HasIntercept tables item record other ↔ other = c) ∧
      c.isFinite = true ∧ List.Forall₂ (Expr.HasValue record) entry.intercept.terms values ∧
      ∀ x, Binary64.Same (values.foldl (· + ·) x) (x + c) := by
  obtain ⟨number, label, slope, intercept⟩ := entry
  have hintercept := hitem.intercept_eq
  cases intercept with
  | flat offset =>
      obtain ⟨hnil, row, hoffset, rfl⟩ := interceptOf_flat_iff.mp hintercept
      have hmem := List.mem_of_find?_eq_some hoffset
      exact ⟨row.offset, [row.offset], fun other => hasIntercept_flat_iff hrows hnil hoffset,
        (hrows.offsets row hmem).2, .cons (Expr.hasValue_coefficient _) .nil, fun x => .refl _⟩
  | dif tree =>
      obtain ⟨hleaves, hoffset, htree⟩ := interceptOf_dif_iff.mp hintercept
      obtain ⟨hdistinct, -, hdescribes, -⟩ := ItemTree.ofRows_eq_ok_iff.mp htree
      have hfinite := finiteOn_of_follows hrows hdistinct hdescribes.follows fun row hrow =>
        hcolumns row.column ((mem_columns_iff htree).mpr ⟨row, hrow, rfl⟩)
      -- All terms but the one of the selected leaf are zeros of either sign.
      obtain ⟨before, c, after, hselect, hcfinite, hvalues, hbefore, hafter⟩ :=
        SplitTree.exists_term_values hfinite .nil (by simp)
      exact ⟨c, _, fun other => hasIntercept_dif_iff hrows hoffset htree hselect, hcfinite,
        hvalues, fun x => foldl_add_single hbefore hafter x c⟩

end ModelTables

end ItemScoring
