import ItemScoring.Tree.Table
import ItemScoring.Tree.Shape

/-!
# Unfolding a split table

`SplitTable.unfold` grows the tree below a node by following child numbers.  A
table may send two parents to one child, which then occurs twice in the tree;
only a node that is its own ancestor is refused, since the tree would be
infinite.  The path of ancestors also bounds the recursion: every step down adds
the number of a row that is not on the path yet.
-/

namespace ItemScoring.SplitTable

variable (table : SplitTable)

/-- The tree below a node whose ancestors are `path`.  The left subtree is grown
before the right one, and the first defect met ends the walk. -/
def unfold (path : List NodeId) (node : NodeId) : Except TreeError SplitTree :=
  if _fresh : node ∈ path then .error (.cycleDetected node)
  else
    match _resolved : table.resolve node with
    | .error defect => .error defect
    | .ok (.leaf coefficient) => .ok (.leaf node coefficient)
    | .ok (.split column threshold left right) => do
      let low ← unfold (node :: path) left
      let high ← unfold (node :: path) right
      return .branch node column threshold low high
termination_by unmet table.splitNumbers path
decreasing_by all_goals exact unmet_lt (mem_splitNumbers_of_resolve _resolved) _fresh

/-- The branch expression of the tree below a node, under conditions that hold
above it. -/
def branchExpression (node : NodeId) (conditions : List Expr) : Except TreeError Expr :=
  (SplitTree.expression conditions) <$> table.unfold [] node

end ItemScoring.SplitTable
