import ItemScoring.Tree.Survey
import ItemScoring.Tree.Unfolding

/-!
# The tree of an item

`ItemTree.ofRows` accepts split rows and leaf coefficients if they make up one
binary tree with root number one: every row is a node of it with both children,
and its leaves are exactly the nodes with coefficients.  What it returns holds
the tree itself, so that nothing has to be looked up or checked again.

A table is inspected in this order, and the first defect found is reported:
numbers that two rows share; rows without a child or with a coefficient, by
ascending number; nodes met twice or unknown, as a survey from the root comes
upon them; coefficients, then rows, that the survey did not reach.
-/

namespace ItemScoring

/-- The tree of one item. -/
structure ItemTree where
  /-- The rows of the tree by ascending number. -/
  splits : List Split
  /-- The roles of the nodes, as a survey noted them. -/
  roles : NodeRoles
  shape : SplitTree
deriving Repr, DecidableEq

/-- The first element that occurs earlier in the list too. -/
def firstRepeat? {α : Type} [DecidableEq α] (earlier : List α) : List α → Option α
  | [] => none
  | a :: rest => if a ∈ earlier then some a else firstRepeat? (a :: earlier) rest

namespace ItemTree

/-! ### Construction -/

/-- Rows by ascending number; rows of one number keep their order. -/
def sortRows (splits : List Split) : List Split :=
  splits.mergeSort fun first second => first.number ≤ second.number

/-- A row needs both children and must not be a leaf. -/
def checkRow (coefficients : Coefficients) (row : Split) : Except TreeError Unit :=
  if row.left.isNone ∨ row.right.isNone then .error (.incompleteSplit row.number)
  else if coefficients.contains row.number then .error (.ambiguousNode row.number)
  else .ok ()

/-- The table in which exactly the nodes with coefficients are leaves. -/
def table (splits : List Split) (coefficients : Coefficients) : SplitTable where
  splits
  leafIds := coefficients.keys
  coefficients

/-- Everything known must have been met, coefficients before rows. -/
def checkReached (splits : List Split) (coefficients : Coefficients) (met : List NodeId) :
    Except TreeError Unit :=
  match coefficients.keys.find? (· ∉ met) with
  | some node => .error (.unreachableLeaf node)
  | none =>
    match (splits.map Split.number).find? (· ∉ met) with
    | some node => .error (.unreachableNode node)
    | none => .ok ()

/-- The tree that the rows, given in any order, make up with the coefficients. -/
def ofRows (splits : List Split) (coefficients : Coefficients) : Except TreeError ItemTree := do
  let rows := sortRows splits
  if let some node := firstRepeat? [] (rows.map Split.number) then
    throw (.duplicateNode node)
  rows.forM (checkRow coefficients)
  let survey ← Survey.start.run (table rows coefficients)
  checkReached rows coefficients survey.met
  let shape ← (table rows coefficients).unfold [] rootId
  return { splits := rows, roles := survey.roles, shape }

/-! ### Queries -/

variable (tree : ItemTree)

/-- The role of the node with this number. -/
def kind? (node : NodeId) : Option NodeKind := tree.roles.lookup node

/-- The number of leaves, that is of subgroups with a coefficient of their own. -/
def leafCount : Nat := tree.shape.leafCount

/-- The greatest number of splits on the way from the root to a leaf. -/
def depth : Nat := tree.shape.depth

/-- The columns that the tree splits on, each once, by the least number of a row
that tests it. -/
def columns : List String := (tree.splits.map Split.column).eraseDups

/-- The row with this number among rows by ascending number, found by halving: of the
rows from the middle one on or of those up to it, the part that may hold the number is
searched, and the last row left is compared. -/
def bisect (number : NodeId) (rows : List Split) : Option Split :=
  if _many : 1 < rows.length then
    let half := rows.length / 2
    if number < rows[half].number then bisect number (rows.take (rows.length - half))
    else bisect number (rows.drop half)
  else rows.head?.filter (·.number == number)
termination_by rows.length

/-- The row of the tree with this number, found by halving. -/
def row? (number : NodeId) : Option Split := bisect number tree.splits

/-- The branch expression of the tree. -/
def expression : Expr := tree.shape.expression []

end ItemTree

end ItemScoring
