import Mathlib.Logic.Equiv.Basic
import ItemScoring.Proofs.Tree.Agreement

/-!
# Other numbers for the same nodes

The number of a node says where rows and coefficients meet, and nothing else.  Renumbering the
nodes of an item by an injective map that leaves the root its number changes the order of rows, of
coefficients and of everything that is looked up by number, and with it which of several defects is
found first.  But a renumbered number stands for what the number stood for
(`resolve_renumber_leaf_iff`, `resolve_renumber_split_iff`), so that the trees that follow
the renumbered table are the renumbered trees (`follows_renumber_iff`, `exists_renumber`).  Rows are
therefore accepted under both numberings or under none (`ofRows_renumber_eq_ok_iff`), and since
terms are made of columns, thresholds and coefficients alone, the expression is the same.
-/

namespace ItemScoring

variable {f : NodeId → NodeId}

/-! ### Renumbered rows and coefficients -/

/-- The row with other numbers for the node and its children. -/
def Split.renumber (f : NodeId → NodeId) (row : Split) : Split :=
  { row with number := f row.number, left := row.left.map f, right := row.right.map f }

/-- The coefficients under other numbers. -/
def Coefficients.renumber (f : NodeId → NodeId) (coefficients : Coefficients) : Coefficients :=
  .ofEntries (coefficients.toList.map fun (node, value) => (f node, value))

namespace Coefficients

variable {coefficients : Coefficients}

theorem getElem?_renumber_eq_some_iff (hf : Function.Injective f) {node : NodeId} {value : Float} :
    (coefficients.renumber f)[node]? = some value ↔
      ∃ original, coefficients[original]? = some value ∧ f original = node := by
  have hdistinct : ((coefficients.toList.map fun (node, value) => (f node, value)).map
      Prod.fst).Nodup := by
    have hkeys : (coefficients.toList.map Prod.fst).Nodup := by
      rw [Std.TreeMap.map_fst_toList_eq_keys]
      exact Std.TreeMap.nodup_keys
    have hmap := hkeys.map hf
    rwa [List.map_map] at hmap ⊢
  rw [renumber, getElem?_ofEntries hdistinct]
  simp [Std.TreeMap.mem_toList_iff_getElem?_eq_some]

/-- A node keeps its coefficient. -/
theorem getElem?_renumber (hf : Function.Injective f) (node : NodeId) :
    (coefficients.renumber f)[f node]? = coefficients[node]? := by
  apply Option.ext
  intro value
  rw [getElem?_renumber_eq_some_iff hf]
  constructor
  · rintro ⟨original, hvalue, hsame⟩
    rwa [← hf hsame]
  · intro hvalue
    exact ⟨node, hvalue, rfl⟩

theorem mem_renumber_iff (hf : Function.Injective f) {node : NodeId} :
    node ∈ coefficients.renumber f ↔ ∃ original ∈ coefficients, f original = node := by
  simp only [Std.TreeMap.mem_iff_isSome_getElem?, Option.isSome_iff_exists,
    getElem?_renumber_eq_some_iff hf]
  constructor
  · rintro ⟨value, original, hvalue, hsame⟩
    exact ⟨original, ⟨value, hvalue⟩, hsame⟩
  · rintro ⟨original, ⟨value, hvalue⟩, hsame⟩
    exact ⟨value, original, hvalue, hsame⟩

theorem apply_mem_renumber_iff (hf : Function.Injective f) {node : NodeId} :
    f node ∈ coefficients.renumber f ↔ node ∈ coefficients := by
  rw [Std.TreeMap.mem_iff_isSome_getElem?, Std.TreeMap.mem_iff_isSome_getElem?,
    getElem?_renumber hf]

end Coefficients

/-! ### Renumbered trees -/

namespace SplitTree

/-- The tree with other numbers for its nodes. -/
def renumber (f : NodeId → NodeId) : SplitTree → SplitTree
  | leaf id coefficient => leaf (f id) coefficient
  | branch id column threshold left right =>
    branch (f id) column threshold (left.renumber f) (right.renumber f)

variable (tree : SplitTree)

@[simp] theorem id_renumber : (tree.renumber f).id = f tree.id := by
  cases tree <;> rfl

theorem ids_renumber : (tree.renumber f).ids = tree.ids.map f := by
  induction tree with
  | leaf id coefficient => rfl
  | branch id column threshold left right ihleft ihright =>
      rw [renumber, ids, ids, ihleft, ihright, List.map_cons, List.map_append]

theorem leafCount_renumber : (tree.renumber f).leafCount = tree.leafCount := by
  induction tree with
  | leaf id coefficient => rfl
  | branch id column threshold left right ihleft ihright =>
      rw [renumber, leafCount, leafCount, ihleft, ihright]

theorem depth_renumber : (tree.renumber f).depth = tree.depth := by
  induction tree with
  | leaf id coefficient => rfl
  | branch id column threshold left right ihleft ihright =>
      rw [renumber, depth, depth, ihleft, ihright]

/-- No term mentions a number. -/
theorem terms_renumber (conditions : List Expr) :
    (tree.renumber f).terms conditions = tree.terms conditions := by
  induction tree generalizing conditions with
  | leaf id coefficient => rfl
  | branch id column threshold left right ihleft ihright =>
      rw [renumber, terms, terms, ihleft, ihright]

theorem expression_renumber (conditions : List Expr) :
    (tree.renumber f).expression conditions = tree.expression conditions := by
  rw [expression_eq, expression_eq, terms_renumber]

end SplitTree

namespace ItemTree

variable {splits : List Split} {coefficients : Coefficients}

/-! ### What renumbered numbers stand for -/

theorem nodup_renumber_iff (hf : Function.Injective f) :
    ((splits.map (Split.renumber f)).map Split.number).Nodup ↔
      (splits.map Split.number).Nodup := by
  have hnumbers : (splits.map (Split.renumber f)).map Split.number =
      (splits.map Split.number).map f := by
    rw [List.map_map, List.map_map]
    rfl
  rw [hnumbers, List.nodup_map_iff hf]

theorem checkRow_renumber_iff (hf : Function.Injective f) {row : Split} :
    checkRow (coefficients.renumber f) (row.renumber f) = .ok () ↔
      checkRow coefficients row = .ok () := by
  have hmem : (row.renumber f).number ∈ coefficients.renumber f ↔ row.number ∈ coefficients :=
    Coefficients.apply_mem_renumber_iff hf
  rw [checkRow_eq_ok_iff, checkRow_eq_ok_iff, hmem]
  simp [Split.renumber]

/-- A leaf of the renumbered table. -/
theorem resolve_renumber_leaf_iff (hf : Function.Injective f) {node : NodeId}
    {coefficient : Float} :
    (table (sortRows (splits.map (Split.renumber f))) (coefficients.renumber f)).resolve (f node) =
        .ok (.leaf coefficient) ↔
      (table (sortRows splits) coefficients).resolve node = .ok (.leaf coefficient) := by
  rw [resolve_leaf_iff, resolve_leaf_iff, Coefficients.getElem?_renumber hf]

/-- A split of the renumbered table has the renumbered children. -/
theorem resolve_renumber_split_iff (hf : Function.Injective f)
    (hdistinct : (splits.map Split.number).Nodup) {node left right : NodeId} {column : String}
    {threshold : Float} :
    (table (sortRows (splits.map (Split.renumber f))) (coefficients.renumber f)).resolve (f node) =
        .ok (.split column threshold left right) ↔
      ∃ low high, f low = left ∧ f high = right ∧
        (table (sortRows splits) coefficients).resolve node =
          .ok (.split column threshold low high) := by
  have hrenumbered := (nodup_renumber_iff hf).mpr hdistinct
  simp only [resolve_split_iff (nodup_sortRows hrenumbered),
    resolve_split_iff (nodup_sortRows hdistinct), mem_sortRows,
    Coefficients.apply_mem_renumber_iff hf]
  -- Rows correspond one to one; that their numbers agree is where injectivity is needed.
  constructor
  · rintro ⟨hsplit, renumbered, hrenumbered, hnumber, hleft, hright, rfl, rfl⟩
    obtain ⟨row, hrow, rfl⟩ := List.mem_map.mp hrenumbered
    obtain ⟨low, hlow, hleft⟩ := Option.map_eq_some_iff.mp hleft
    obtain ⟨high, hhigh, hright⟩ := Option.map_eq_some_iff.mp hright
    exact ⟨low, high, hleft, hright, hsplit, row, hrow, hf hnumber, hlow, hhigh, rfl, rfl⟩
  · rintro ⟨low, high, rfl, rfl, hsplit, row, hrow, rfl, hlow, hhigh, rfl, rfl⟩
    refine ⟨hsplit, row.renumber f, List.mem_map_of_mem hrow, rfl, ?_, ?_, rfl, rfl⟩
    · simp [Split.renumber, hlow]
    · simp [Split.renumber, hhigh]

section Trees

variable (hf : Function.Injective f) (hdistinct : (splits.map Split.number).Nodup)
include hf hdistinct

theorem follows_renumber_iff {shape : SplitTree} :
    (shape.renumber f).Follows
        (table (sortRows (splits.map (Split.renumber f))) (coefficients.renumber f)) ↔
      shape.Follows (table (sortRows splits) coefficients) := by
  induction shape with
  | leaf id coefficient => exact resolve_renumber_leaf_iff hf
  | branch id column threshold left right ihleft ihright =>
      rw [SplitTree.renumber, SplitTree.Follows, SplitTree.Follows, ihleft, ihright,
        resolve_renumber_split_iff hf hdistinct]
      simp only [SplitTree.id_renumber, hf.eq_iff]
      constructor
      · rintro ⟨⟨low, high, rfl, rfl, hsplit⟩, hleft, hright⟩
        exact ⟨hsplit, hleft, hright⟩
      · rintro ⟨hsplit, hleft, hright⟩
        exact ⟨⟨left.id, right.id, rfl, rfl, hsplit⟩, hleft, hright⟩

/-- What grows from a renumbered node is a renumbered tree. -/
theorem exists_renumber {renumbered : SplitTree} {node : NodeId}
    (hfollows : renumbered.Follows
      (table (sortRows (splits.map (Split.renumber f))) (coefficients.renumber f)))
    (hid : renumbered.id = f node) :
    ∃ shape : SplitTree, shape.renumber f = renumbered ∧ shape.id = node := by
  induction renumbered generalizing node with
  | leaf id coefficient =>
      obtain rfl : id = f node := hid
      exact ⟨.leaf node coefficient, rfl, rfl⟩
  | branch id column threshold left right ihleft ihright =>
      obtain ⟨hsplit, hleft, hright⟩ := hfollows
      obtain rfl : id = f node := hid
      obtain ⟨low, high, hlow, hhigh, -⟩ := (resolve_renumber_split_iff hf hdistinct).mp hsplit
      obtain ⟨lowShape, rfl, rfl⟩ := ihleft hleft hlow.symm
      obtain ⟨highShape, rfl, rfl⟩ := ihright hright hhigh.symm
      exact ⟨.branch node column threshold lowShape highShape, rfl, rfl⟩

/-- A tree is described by the renumbered rows if it is the renumbered tree of one that is described
by the rows. -/
theorem describes_renumber_iff (hroot : f rootId = rootId) {renumbered : SplitTree} :
    Describes (splits.map (Split.renumber f)) (coefficients.renumber f) renumbered ↔
      ∃ shape, Describes splits coefficients shape ∧ shape.renumber f = renumbered := by
  have hids : ∀ (shape : SplitTree) (node : NodeId),
      f node ∈ (shape.renumber f).ids ↔ node ∈ shape.ids := by
    intro shape node
    rw [SplitTree.ids_renumber, List.mem_map_of_injective hf]
  constructor
  · rintro ⟨follows, root, distinct, leaves, rows⟩
    obtain ⟨shape, rfl, hshape⟩ := exists_renumber hf hdistinct follows (root.trans hroot.symm)
    refine ⟨shape, ⟨(follows_renumber_iff hf hdistinct).mp follows, hshape, ?_, ?_, ?_⟩, rfl⟩
    · rwa [SplitTree.ids_renumber, List.nodup_map_iff hf] at distinct
    · intro node hnode
      exact (hids shape node).mp (leaves _ ((Coefficients.apply_mem_renumber_iff hf).mpr hnode))
    · intro row hrow
      exact (hids shape row.number).mp (rows _ (List.mem_map_of_mem hrow))
  · rintro ⟨shape, ⟨follows, root, distinct, leaves, rows⟩, rfl⟩
    refine ⟨(follows_renumber_iff hf hdistinct).mpr follows, ?_, ?_, ?_, ?_⟩
    · rw [SplitTree.id_renumber, root, hroot]
    · rwa [SplitTree.ids_renumber, List.nodup_map_iff hf]
    · intro node hnode
      obtain ⟨original, horiginal, rfl⟩ := (Coefficients.mem_renumber_iff hf).mp hnode
      exact (hids shape original).mpr (leaves original horiginal)
    · intro renumbered hrenumbered
      obtain ⟨row, hrow, rfl⟩ := List.mem_map.mp hrenumbered
      exact (hids shape row.number).mpr (rows row hrow)

end Trees

/-! ### Acceptance -/

/-- The tree with other numbers for its nodes, its rows by the new numbers. -/
def renumber (f : NodeId → NodeId) (tree : ItemTree) : ItemTree where
  splits := sortRows (tree.splits.map (Split.renumber f))
  roles := (tree.shape.renumber f).roles.reverse
  shape := tree.shape.renumber f

/-- Sorting by the new numbers makes sorting by the old ones pointless. -/
theorem sortRows_renumber (hf : Function.Injective f)
    (hdistinct : (splits.map Split.number).Nodup) :
    sortRows ((sortRows splits).map (Split.renumber f)) =
      sortRows (splits.map (Split.renumber f)) :=
  sortRows_eq ((sortRows_perm splits).map _)
    ((nodup_renumber_iff hf).mpr (nodup_sortRows hdistinct))

/-- Renumbered rows make up the renumbered tree, if the rows make up a tree. -/
theorem ofRows_renumber_eq_ok_iff (hf : Function.Injective f) (hroot : f rootId = rootId)
    {renumbered : ItemTree} :
    ofRows (splits.map (Split.renumber f)) (coefficients.renumber f) = .ok renumbered ↔
      ∃ tree, ofRows splits coefficients = .ok tree ∧ tree.renumber f = renumbered := by
  simp only [ofRows_eq_ok_iff, nodup_renumber_iff hf, List.forall_mem_map,
    checkRow_renumber_iff hf]
  constructor
  · rintro ⟨hdistinct, hchecks, hdescribes, hsplits, hroles⟩
    obtain ⟨shape, hshape, hrenumber⟩ := (describes_renumber_iff hf hdistinct hroot).mp hdescribes
    refine ⟨⟨sortRows splits, shape.roles.reverse, shape⟩,
      ⟨hdistinct, hchecks, hshape, rfl, rfl⟩, ?_⟩
    rw [renumber, sortRows_renumber hf hdistinct, hrenumber, ← hsplits, ← hroles]
  · rintro ⟨tree, ⟨hdistinct, hchecks, hshape, hsplits, -⟩, rfl⟩
    refine ⟨hdistinct, hchecks,
      (describes_renumber_iff hf hdistinct hroot).mpr ⟨tree.shape, hshape, rfl⟩, ?_, rfl⟩
    rw [renumber, hsplits, sortRows_renumber hf hdistinct]

/-- Node numbers are only names: rows and coefficients are accepted under other numbers if and only
if they are accepted, whatever the defects; and then the tree is the renumbered tree, going by its
roles and rows comes to the same expression, and it has the same number of leaves and depth. -/
theorem ofRows_renumber (hf : Function.Injective f) (hroot : f rootId = rootId)
    (splits : List Split) (coefficients : Coefficients) :
    let renumberedRows := splits.map (Split.renumber f)
    let renumberedLeaves := coefficients.renumber f
    ((∃ renumbered, ofRows renumberedRows renumberedLeaves = .ok renumbered) ↔
      ∃ tree, ofRows splits coefficients = .ok tree) ∧
    ∀ tree renumbered, ofRows splits coefficients = .ok tree →
      ofRows renumberedRows renumberedLeaves = .ok renumbered →
      renumbered.expression = tree.expression ∧
      (SplitTree.termsBy renumbered.meaning (renumbered.splits.length + 1) [] [] rootId).map
        (Except.map Expr.ofTerms) = some (.ok tree.expression) ∧
      renumbered.leafCount = tree.leafCount ∧ renumbered.depth = tree.depth := by
  intro renumberedRows renumberedLeaves
  constructor
  · constructor
    · rintro ⟨renumbered, hrenumbered⟩
      obtain ⟨tree, htree, -⟩ := (ofRows_renumber_eq_ok_iff hf hroot).mp hrenumbered
      exact ⟨tree, htree⟩
    · rintro ⟨tree, htree⟩
      exact ⟨_, (ofRows_renumber_eq_ok_iff hf hroot).mpr ⟨tree, htree, rfl⟩⟩
  · intro tree renumbered htree hrenumbered
    -- The accepted tree is the renumbered one, and an expression does not name nodes.
    obtain ⟨original, horiginal, rfl⟩ := (ofRows_renumber_eq_ok_iff hf hroot).mp hrenumbered
    obtain rfl : tree = original := Except.ok.inj (htree.symm.trans horiginal)
    have hexpression : (tree.renumber f).expression = tree.expression :=
      tree.shape.expression_renumber []
    refine ⟨hexpression, ?_, tree.shape.leafCount_renumber, tree.shape.depth_renumber⟩
    rw [← hexpression]
    exact termsBy_meaning hrenumbered

/-- On the rows of a chain with the lower row now first and its sibling leaf now last, the
expression is the one of the chain; one coefficient too many is too many under both numberings. -/
theorem ofRows_renumber_chainRows :
    let f : NodeId → NodeId := (Equiv.swap 3 0).trans (Equiv.swap 2 9)
    let leaves := Coefficients.ofEntries [(2, 0.5), (4, -1), (5, 1)]
    let spare := Coefficients.ofEntries [(2, 0.5), (4, -1), (5, 1), (8, 0)]
    let renumberedRows := chainRows.map (Split.renumber f)
    Function.Injective f ∧ f rootId = rootId ∧
      (sortRows renumberedRows).map Split.number = [0, 1] ∧
      (leaves.renumber f).keys = [4, 5, 9] ∧
      (∃ tree renumbered, ofRows chainRows leaves = .ok tree ∧
        ofRows renumberedRows (leaves.renumber f) = .ok renumbered ∧
        renumbered.expression = tree.expression ∧
        renumbered.leafCount = 3 ∧ renumbered.depth = 2) ∧
      ¬ ∃ renumbered, ofRows renumberedRows (spare.renumber f) = .ok renumbered := by
  intro f leaves spare renumberedRows
  have hf : Function.Injective f := Equiv.injective _
  have hroot : f rootId = rootId := by decide
  have hsorted : sortRows chainRows = chainRows := List.mergeSort_of_pairwise (by decide)
  -- Zero, which the second row is given, comes before one.
  have hrenumbered : sortRows renumberedRows = renumberedRows.reverse :=
    (sortRows_eq renumberedRows.reverse_perm (by decide)).symm.trans
      (List.mergeSort_of_pairwise (by decide))
  have haccepted : ofRows chainRows leaves = .ok ⟨chainRows,
      [(5, .leaf 1), (4, .leaf (-1)), (3, .internal 4 5), (2, .leaf 0.5), (1, .internal 2 3)],
      .branch 1 "age" 40 (.leaf 2 0.5) (.branch 3 "sex" 0 (.leaf 4 (-1)) (.leaf 5 1))⟩ := by
    rw [ofRows, hsorted]
    decide +kernel
  have hspare : ofRows chainRows spare = .error (.unreachableLeaf 8) := by
    rw [ofRows, hsorted]
    decide +kernel
  obtain ⟨hiff, hsame⟩ := ofRows_renumber hf hroot chainRows leaves
  obtain ⟨renumbered, htree⟩ := hiff.mpr ⟨_, haccepted⟩
  obtain ⟨hexpression, -, hleaves, hdepth⟩ := hsame _ _ haccepted htree
  refine ⟨hf, hroot, by rw [hrenumbered]; decide, by decide +kernel,
    ⟨_, renumbered, haccepted, htree, hexpression, hleaves, hdepth⟩, ?_⟩
  rw [(ofRows_renumber hf hroot chainRows spare).1, hspare]
  simp

end ItemTree

end ItemScoring
