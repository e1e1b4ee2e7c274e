import ItemScoring.Tree.Split

/-!
# The tables of a fitted model

A model is fitted elsewhere and arrives as flat tables: a slope per item,
optional labels, the leaf coefficients and split rows of the items whose
intercept depends on the subgroup of a record, and the offsets of all other
items.  `ModelTables` holds them as they are stored; nothing is checked yet.
-/

namespace ItemScoring

/-- The intercept of one leaf of the tree of an item. -/
structure LeafRow where
  item : Nat
  node : NodeId
  coefficient : Float
deriving Repr, DecidableEq

/-- The intercept of an item without a tree. -/
structure OffsetRow where
  item : Nat
  offset : Float
deriving Repr, DecidableEq

/-- The tables of a model.  Items are counted from one, in the order of the
slopes. -/
structure ModelTables where
  slopes : List Float
  /-- One label per item, or `none` for the default labels. -/
  labels : Option (List String)
  leaves : List LeafRow
  offsets : List OffsetRow
  splits : List Split
deriving Repr, DecidableEq

namespace ModelTables

variable (tables : ModelTables)

/-- The number of items. -/
def itemCount : Nat := tables.slopes.length

/-- The leaf rows of an item. -/
def leavesOf (item : Nat) : List LeafRow := tables.leaves.filter (·.item == item)

/-- The offset row of an item. -/
def offsetOf? (item : Nat) : Option OffsetRow := tables.offsets.find? (·.item == item)

/-- The split rows of an item, in table order. -/
def splitsOf (item : Nat) : List Split := tables.splits.filter (·.item == item)

/-- The label of an item: the one in the tables or one made from its number. -/
def labelOf (item : Nat) : String :=
  match tables.labels with
  | some labels => labels.getD (item - 1) ""
  | none => s!"item{item}"

/-- The coefficients of an item's leaves. -/
def coefficientsOf (item : Nat) : Coefficients :=
  .ofEntries ((tables.leavesOf item).map fun row => (row.node, row.coefficient))

end ModelTables

end ItemScoring
