import ItemScoring.Proofs.Expr.Values
import ItemScoring.Proofs.Tree.Acceptance

/-!
# The columns of a tree

The columns of an item are listed from its rows, and its equation mentions the columns
that the branches of its tree test.  The two agree because every row of an accepted
table is a branch of the tree (`Follows.mem_tested`), and because below every branch
there is a leaf whose term repeats the test (`mem_mentionsAll_terms`).

The equation itself is written down from the tree.  Growing the branch expression out of
the rows again, node by node, cannot fail and gives the same terms
(`ItemTree.branchExpression_eq`, `summands_expression`).
-/

namespace ItemScoring

/-- The terms of a sum; any other expression is a single term. -/
def Expr.summands : Expr → List Expr
  | .sum terms => terms
  | e => [e]

namespace SplitTree

/-- The columns that the branches test. -/
def tested : SplitTree → List String
  | leaf _ _ => []
  | branch _ column _ left right => column :: (left.tested ++ right.tested)

/-! ### Terms -/

theorem mem_mentionsAll_terms {tree : SplitTree} {conditions : List Expr} {name : String} :
    name ∈ Expr.mentionsAll (tree.terms conditions) ↔
      name ∈ Expr.mentionsAll conditions ∨ name ∈ tree.tested := by
  induction tree generalizing conditions with
  | leaf id coefficient =>
      cases conditions <;> simp [terms, leafTerm, tested, Expr.mentionsAll, Expr.mentions]
  | branch id column threshold left right ihleft ihright =>
      simp only [terms, tested, Expr.mentionsAll_append, List.mem_append, ihleft, ihright,
        Expr.mentionsAll, Expr.mentions, List.mem_cons, List.append_nil, List.not_mem_nil,
        or_false]
      tauto

theorem summands_of_mem_terms {tree : SplitTree} {conditions : List Expr} {term : Expr}
    (hterm : term ∈ tree.terms conditions) : term.summands = [term] := by
  induction tree generalizing conditions with
  | leaf id coefficient =>
      obtain rfl := List.mem_singleton.mp hterm
      unfold leafTerm
      split <;> rfl
  | branch id column threshold left right ihleft ihright =>
      rcases List.mem_append.mp hterm with hterm | hterm
      · exact ihleft hterm
      · exact ihright hterm

/-- The branch expression holds the terms of the tree, whether or not it is a sum. -/
theorem summands_expression (tree : SplitTree) (conditions : List Expr) :
    (tree.expression conditions).summands = tree.terms conditions := by
  unfold expression
  split
  next term hterms =>
    rw [hterms]
    exact summands_of_mem_terms (by rw [hterms]; exact List.mem_singleton_self term)
  next => rfl

/-! ### Rows and branches -/

variable {table : SplitTable}

/-- What a node tests is tested by the tree. -/
theorem Follows.mem_tested {tree : SplitTree} (htree : tree.Follows table)
    {node left right : NodeId} {column : String} {threshold : Float} (hnode : node ∈ tree.ids)
    (hresolved : table.resolve node = .ok (.split column threshold left right)) :
    column ∈ tree.tested := by
  induction tree with
  | leaf id coefficient =>
      obtain rfl := List.mem_singleton.mp hnode
      have hsame := hresolved.symm.trans htree
      simp at hsame
  | branch id other bound low high ihlow ihhigh =>
      simp only [ids, List.mem_cons, List.mem_append] at hnode
      simp only [tested, List.mem_cons, List.mem_append]
      -- The node is the root of the tree, whose row tests the column, or is in one of its branches.
      rcases hnode with rfl | hnode | hnode
      · have hsame := hresolved.symm.trans htree.1
        simp only [Except.ok.injEq, Node.split.injEq] at hsame
        exact Or.inl hsame.1
      · exact Or.inr (Or.inl (ihlow htree.2.1 hnode))
      · exact Or.inr (Or.inr (ihhigh htree.2.2 hnode))

/-- What the tree tests is tested by some node. -/
theorem Follows.exists_of_mem_tested {tree : SplitTree} (htree : tree.Follows table)
    {column : String} (hcolumn : column ∈ tree.tested) :
    ∃ node threshold left right, table.resolve node = .ok (.split column threshold left right) := by
  induction tree with
  | leaf id coefficient => simp [tested] at hcolumn
  | branch id other threshold low high ihlow ihhigh =>
      simp only [tested, List.mem_cons, List.mem_append] at hcolumn
      rcases hcolumn with rfl | hcolumn | hcolumn
      · exact ⟨id, threshold, low.id, high.id, htree.1⟩
      · exact ihlow htree.2.1 hcolumn
      · exact ihhigh htree.2.2 hcolumn

end SplitTree

namespace ItemTree

variable {splits : List Split} {coefficients : Coefficients} {tree : ItemTree}

/-- An accepted tree tests the columns of its rows. -/
theorem mem_tested_iff (htree : ofRows splits coefficients = .ok tree) {column : String} :
    column ∈ tree.shape.tested ↔ column ∈ tree.columns := by
  obtain ⟨hdistinct, hchecks, hdescribes, hsplits⟩ := ofRows_eq_ok_iff.mp htree
  have hcolumns : column ∈ tree.columns ↔ ∃ row ∈ splits, row.column = column := by
    simp [columns, hsplits, List.mem_eraseDups, mem_sortRows]
  rw [hcolumns]
  constructor
  · intro hmem
    obtain ⟨node, threshold, left, right, hresolved⟩ :=
      hdescribes.follows.exists_of_mem_tested hmem
    obtain ⟨-, row, hrow, -, -, -, hcolumn, -⟩ :=
      (resolve_split_iff (nodup_sortRows hdistinct)).mp hresolved
    exact ⟨row, mem_sortRows.mp hrow, hcolumn⟩
  · rintro ⟨row, hrow, rfl⟩
    obtain ⟨left, right, hleft, hright⟩ := exists_children (hchecks row hrow)
    have hresolved := resolve_row hdistinct hrow (hchecks row hrow) hleft hright
    exact hdescribes.follows.mem_tested (hdescribes.rows row hrow) hresolved

/-- Growing the branch expression of an accepted tree from its rows succeeds. -/
theorem branchExpression_eq (htree : ofRows splits coefficients = .ok tree) :
    (table tree.splits coefficients).branchExpression rootId [] = .ok tree.expression := by
  obtain ⟨-, -, hdescribes, hsplits, -⟩ := ofRows_eq_ok_iff.mp htree
  have hunfold : (table (sortRows splits) coefficients).unfold [] tree.shape.id = .ok tree.shape :=
    SplitTable.unfold_of_follows hdescribes.follows (by simp)
  rw [hdescribes.root] at hunfold
  rw [SplitTable.branchExpression, hsplits, hunfold]
  rfl

end ItemTree

end ItemScoring
