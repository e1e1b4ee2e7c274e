import ItemScoring.Proofs.Model.Descent
import ItemScoring.Proofs.Tree.Numbered

/-!
# Well-formed tables

The checks of a model run table by table and then item by item, and each of them may
end the whole.  `ModelTables.WellFormed` lists what they ask for without any order:
the rows are in order, every item has either leaf rows or an offset row, and the
split rows and leaf rows of an item with leaf rows are the nodes of one tree
(`NumberedTree.Spans`).  Split rows of an item with an offset are only asked to be in
order themselves.

Two translations carry the equivalence.  The map of coefficients that a tree is built
from has exactly the leaf rows of its item as entries, since no leaf is given twice
(`spans_iff_fits`); and all items together have intercepts exactly if each of them has
one (`exists_itemsFrom_iff`).
-/

namespace ItemScoring

namespace NumberedTree

/-- The split rows are the inner nodes of the tree, and the leaf rows its leaves, each
of them once. -/
structure Spans (splits : List Split) (leaves : List LeafRow) (tree : NumberedTree) : Prop where
  root : tree.id = rootId
  distinct : tree.ids.Nodup
  rows : (splits.map fun row => (row.number, row.left, row.right)).Perm
    (tree.links.map fun (id, left, right) => (id, some left, some right))
  leaves : (leaves.map LeafRow.node).Perm tree.leafIds

end NumberedTree

namespace ModelTables

/-- The rows are in order, every item has one kind of intercept, and the rows of every
item with leaves make up a tree. -/
structure WellFormed (tables : ModelTables) : Prop extends RowsInOrder tables where
  oneIntercept : ∀ item, 0 < item → item ≤ tables.itemCount →
    Xor (∃ row ∈ tables.leaves, row.item = item) (∃ row ∈ tables.offsets, row.item = item)
  trees : ∀ row ∈ tables.leaves, ∃ tree : NumberedTree,
    tree.Spans (tables.splits.filter (·.item == row.item))
      (tables.leaves.filter (·.item == row.item))

variable {tables : ModelTables} {item : Nat}

/-! ### Trees of rows -/

theorem RowsInOrder.mem_coefficientsOf (h : RowsInOrder tables) {node : NodeId} :
    node ∈ tables.coefficientsOf item ↔ node ∈ (tables.leavesOf item).map LeafRow.node := by
  rw [Std.TreeMap.mem_iff_isSome_getElem?, Option.isSome_iff_exists]
  simp only [h.coefficientsOf_eq_some_iff]
  simp [leavesOf, and_assoc]

/-- A tree of the rows of an item fits the coefficients made from its leaf rows. -/
theorem RowsInOrder.spans_iff_fits (h : RowsInOrder tables) {tree : NumberedTree} :
    tree.Spans (tables.splits.filter (·.item == item)) (tables.leaves.filter (·.item == item)) ↔
      tree.Fits (tables.splitsOf item) (tables.coefficientsOf item) := by
  have hperm : tree.ids.Nodup → (((tables.leavesOf item).map LeafRow.node).Perm tree.leafIds ↔
      ∀ node, node ∈ tree.leafIds ↔ node ∈ tables.coefficientsOf item) := by
    intro hdistinct
    rw [List.perm_ext_iff_of_nodup h.nodup_leafNodes (hdistinct.sublist tree.leafIds_sublist)]
    simp only [h.mem_coefficientsOf]
    exact forall_congr' fun node => iff_comm
  constructor
  · rintro ⟨hroot, hdistinct, hrows, hleaves⟩
    exact ⟨hroot, hdistinct, hrows, (hperm hdistinct).mp hleaves⟩
  · rintro ⟨hroot, hdistinct, hrows, hleaves⟩
    exact ⟨hroot, hdistinct, hrows, (hperm hdistinct).mpr hleaves⟩

/-! ### Intercepts -/

theorem exists_ofRows_iff {splits : List Split} {coefficients : Coefficients} :
    (∃ tree, ItemTree.ofRows splits coefficients = .ok tree) ↔
      ∃ tree : NumberedTree, tree.Fits splits coefficients := by
  constructor
  · intro ⟨tree, htree⟩
    obtain ⟨hdistinct, hchecks, hdescribes, -⟩ := ItemTree.ofRows_eq_ok_iff.mp htree
    exact ⟨_, hdescribes.fits hdistinct hchecks⟩
  · intro ⟨tree, hfits⟩
    exact hfits.exists_ofRows

/-- An item has an intercept if it has leaf rows that belong to a tree and no offset row,
or an offset row and no leaf rows. -/
theorem RowsInOrder.exists_interceptOf_iff (h : RowsInOrder tables) :
    (∃ intercept, tables.interceptOf item = .ok intercept) ↔
      Xor (∃ row ∈ tables.leaves, row.item = item) (∃ row ∈ tables.offsets, row.item = item) ∧
      ((∃ row ∈ tables.leaves, row.item = item) → ∃ tree : NumberedTree,
        tree.Spans (tables.splits.filter (·.item == item))
          (tables.leaves.filter (·.item == item))) := by
  simp only [h.spans_iff_fits, ← exists_ofRows_iff, ← leavesOf_ne_nil_iff]
  constructor
  · intro ⟨intercept, hintercept⟩
    -- What the intercept is tells which of the two sorts of rows the item has.
    cases intercept with
    | dif tree =>
        obtain ⟨hleaves, hoffset, htree⟩ := interceptOf_dif_iff.mp hintercept
        exact ⟨Or.inl ⟨hleaves, offsetOf?_eq_none_iff.mp hoffset⟩, fun _ => ⟨tree, htree⟩⟩
    | flat offset =>
        obtain ⟨hnil, row, hrow, -⟩ := interceptOf_flat_iff.mp hintercept
        have hmem := List.mem_of_find?_eq_some hrow
        have hitem : row.item = item := by simpa using List.find?_some hrow
        exact ⟨Or.inr ⟨⟨row, hmem, hitem⟩, not_not_intro hnil⟩, fun hleaves => absurd hnil hleaves⟩
  · rintro ⟨⟨hleaves, hoffset⟩ | ⟨hoffset, hleaves⟩, htree⟩
    · obtain ⟨tree, htree⟩ := htree hleaves
      exact ⟨.dif tree, interceptOf_dif_iff.mpr
        ⟨hleaves, offsetOf?_eq_none_iff.mpr hoffset, htree⟩⟩
    · cases hfound : tables.offsetOf? item with
      | none => exact absurd hoffset (offsetOf?_eq_none_iff.mp hfound)
      | some row =>
          exact ⟨.flat row.offset, interceptOf_flat_iff.mpr ⟨not_not.mp hleaves, row, hfound, rfl⟩⟩

theorem exists_itemsFrom_iff {first : Nat} {slopes : List Float} :
    (∃ items, tables.itemsFrom first slopes = .ok items) ↔
      ∀ i < slopes.length, ∃ intercept, tables.interceptOf (first + i) = .ok intercept := by
  induction slopes generalizing first with
  | nil => simp [itemsFrom]
  | cons slope rest ih =>
      -- The first slope belongs to the first number, the others to the numbers from the next one
      -- on.
      have hstep : (∃ items, tables.itemsFrom first (slope :: rest) = .ok items) ↔
          (∃ intercept, tables.interceptOf first = .ok intercept) ∧
            ∃ others, tables.itemsFrom (first + 1) rest = .ok others := by
        simp only [itemsFrom, bind_eq_ok, pure, Except.pure, Except.ok.injEq]
        constructor
        · rintro ⟨items, intercept, hintercept, others, hothers, -⟩
          exact ⟨⟨intercept, hintercept⟩, others, hothers⟩
        · rintro ⟨⟨intercept, hintercept⟩, others, hothers⟩
          exact ⟨_, intercept, hintercept, others, hothers, rfl⟩
      rw [hstep, ih, List.length_cons]
      constructor
      · rintro ⟨hfirst, hrest⟩ i hi
        cases i with
        | zero => exact hfirst
        | succ i =>
            have := hrest i (by omega)
            rwa [Nat.add_assoc, Nat.add_comm 1 i] at this
      · intro hall
        refine ⟨hall 0 (by omega), fun i hi => ?_⟩
        have := hall (i + 1) (by omega)
        rwa [Nat.add_comm i 1, ← Nat.add_assoc] at this

/-- All items have an intercept if every item from one on does. -/
theorem exists_itemsFrom_one_iff :
    (∃ items, tables.itemsFrom 1 tables.slopes = .ok items) ↔
      ∀ item, 0 < item → item ≤ tables.itemCount →
        ∃ intercept, tables.interceptOf item = .ok intercept := by
  rw [exists_itemsFrom_iff]
  constructor
  · intro hall item hpos hle
    have := hall (item - 1) (by unfold itemCount at hle; omega)
    rwa [Nat.add_sub_cancel' hpos] at this
  · intro hall i hi
    exact hall (1 + i) (by omega) (by unfold itemCount; omega)

end ModelTables

namespace Model

open ModelTables

/-- Tables make up a model exactly if they are well formed. -/
theorem ofTables_accepts_wellFormed (tables : ModelTables) :
    (∃ model, Model.ofTables tables = .ok model) ↔ tables.WellFormed := by
  -- Tables are accepted if their rows are and then each item has an intercept.
  have hsplit : (∃ model, Model.ofTables tables = .ok model) ↔ RowsInOrder tables ∧
      ∃ items, tables.itemsFrom 1 tables.slopes = .ok items := by
    simp only [ofTables_eq_ok_iff]
    constructor
    · rintro ⟨model, hrows, -, hitems⟩
      exact ⟨hrows, model.items, hitems⟩
    · rintro ⟨hrows, items, hitems⟩
      exact ⟨⟨tables, items⟩, hrows, rfl, hitems⟩
  rw [hsplit, exists_itemsFrom_one_iff]
  constructor
  · intro ⟨hrows, hitems⟩
    simp only [hrows.exists_interceptOf_iff] at hitems
    refine ⟨hrows, fun item hpos hle => (hitems item hpos hle).1, fun row hrow => ?_⟩
    obtain ⟨⟨hpos, hle⟩, -⟩ := hrows.leaves row hrow
    exact (hitems row.item hpos hle).2 ⟨row, hrow, rfl⟩
  · intro ⟨hrows, hone, htrees⟩
    refine ⟨hrows, fun item hpos hle => hrows.exists_interceptOf_iff.mpr ⟨hone item hpos hle, ?_⟩⟩
    rintro ⟨row, hrow, rfl⟩
    exact htrees row hrow

end Model

end ItemScoring
