import Std.Data.TreeMap

/-!
# Split rows and what is wrong with them

The tree of an item comes as a flat table: one row per split, and one
coefficient per leaf.  This file has the rows, the map of leaf coefficients, and
the defects for which such a table is refused.
-/

namespace ItemScoring

/-- The number of a node, unique within the tree of an item. -/
abbrev NodeId := UInt32

/-- The number of the root of every tree. -/
def rootId : NodeId := 1

/-- One split: records whose value in `column` is at most the threshold go to the
left child, the others to the right child. -/
structure Split where
  /-- The item whose tree the split belongs to, counted from one. -/
  item : Nat
  number : NodeId
  left : Option NodeId
  right : Option NodeId
  column : String
  threshold : Float
deriving Repr, DecidableEq

/-- The coefficients of leaves by node number. -/
abbrev Coefficients := Std.TreeMap NodeId Float

namespace Coefficients

/-- The map with the given entries; a later entry replaces an earlier one of the
same leaf. -/
def ofEntries (entries : List (NodeId × Float)) : Coefficients :=
  entries.foldl (fun coefficients (id, value) => coefficients.insert id value) ∅

end Coefficients

/-- Why rows and coefficients do not make up a tree. -/
inductive TreeError
  /-- The node is neither a split nor a leaf. -/
  | splitNotFound (node : NodeId)
  | missingCoefficient (node : NodeId)
  /-- The node is reached a second time. -/
  | cycleDetected (node : NodeId)
  | duplicateNode (node : NodeId)
  /-- A child of the split is missing. -/
  | incompleteSplit (node : NodeId)
  /-- The node is a split as well as a leaf. -/
  | ambiguousNode (node : NodeId)
  | unreachableLeaf (node : NodeId)
  | unreachableNode (node : NodeId)
deriving Repr, DecidableEq

namespace TreeError

/-- The wording of the error. -/
def message : TreeError → String
  | splitNotFound node =>
    s!"Node {node} is referenced by the tree but has no split row and is not a known leaf."
  | missingCoefficient node =>
    s!"Leaf node {node} is reachable in the tree but has no coefficient."
  | cycleDetected node =>
    s!"Node {node} is reached more than once; the split table does not form a tree."
  | duplicateNode node =>
    s!"Split row {node} appears more than once in the split table."
  | incompleteSplit node =>
    s!"Split row {node} must name both a left and a right child."
  | ambiguousNode node =>
    s!"Node {node} is listed both as a split row and as a leaf with a coefficient."
  | unreachableLeaf node =>
    s!"Leaf {node} has a coefficient but cannot be reached from the root node."
  | unreachableNode node =>
    s!"Split row {node} cannot be reached from the root node."

end TreeError

end ItemScoring
