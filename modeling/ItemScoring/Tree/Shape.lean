import ItemScoring.Tree.Split
import ItemScoring.Expr.Basic

/-!
# Split trees

`SplitTree` is the tree that a split table describes: inner nodes test a column
against a threshold, leaves carry coefficients.  There are two ways to score a
record with it.  `SplitTree.select` descends from the root to the one leaf that
the record falls into.  `SplitTree.expression` writes the whole tree as one sum
with a term per leaf,

```text
coefficient * (condition 1) * ... * (condition k)
```

where the conditions are the tests on the way to the leaf, so that all terms but
the one of the selected leaf are zero.
-/

namespace ItemScoring

/-- A binary tree of threshold tests with coefficients at the leaves.  Records
with a value of at most the threshold belong to the left subtree. -/
inductive SplitTree
  | leaf (id : NodeId) (coefficient : Float)
  | branch (id : NodeId) (column : String) (threshold : Float) (left right : SplitTree)
deriving Repr, DecidableEq

namespace SplitTree

/-! ### Nodes -/

/-- The number of the topmost node. -/
def id : SplitTree → NodeId
  | leaf id _ => id
  | branch id _ _ _ _ => id

/-- The numbers of all nodes, each node before its subtrees and the left subtree
before the right one. -/
def ids : SplitTree → List NodeId
  | leaf id _ => [id]
  | branch id _ _ left right => id :: (left.ids ++ right.ids)

/-- The number of leaves. -/
def leafCount : SplitTree → Nat
  | leaf _ _ => 1
  | branch _ _ _ left right => left.leafCount + right.leafCount

/-- The greatest number of tests on the way from the root to a leaf. -/
def depth : SplitTree → Nat
  | leaf _ _ => 0
  | branch _ _ _ left right => 1 + max left.depth right.depth

/-! ### Scoring -/

/-- The coefficient of the leaf that a record falls into, found by descending
from the root. -/
def select (record : Record) : SplitTree → Except EvalError Float
  | leaf _ coefficient => .ok coefficient
  | branch _ column threshold left right => do
    let value ← record.lookup column
    if value ≤ threshold then left.select record else right.select record

/-- The term of a leaf under the conditions on the way to it. -/
def leafTerm (coefficient : Float) (conditions : List Expr) : Expr :=
  if conditions.isEmpty then .coefficient coefficient
  else .product (.coefficient coefficient :: conditions)

/-- The terms of all leaves from left to right, given the conditions that hold
above the tree. -/
def terms (conditions : List Expr) : SplitTree → List Expr
  | leaf _ coefficient => [leafTerm coefficient conditions]
  | branch _ column threshold left right =>
    left.terms (conditions ++ [.indicator column .atMost threshold]) ++
      right.terms (conditions ++ [.indicator column .above threshold])

/-- The sum of the terms of all leaves; a single term stands alone. -/
def expression (conditions : List Expr) (tree : SplitTree) : Expr :=
  match tree.terms conditions with
  | [term] => term
  | terms => .sum terms

end SplitTree

end ItemScoring
