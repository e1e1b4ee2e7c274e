import ItemScoring.Proofs.Tree.Branches
import ItemScoring.Proofs.Tree.Columns
import ItemScoring.Proofs.Tree.Halving
import ItemScoring.Proofs.Tree.Numbered
import ItemScoring.Proofs.Tree.Refusals

/-!
# Two ways to an expression

The branch expression of an item can be asked of the tree that was accepted for it, or be grown
right away from the rows and coefficients.  The first goes by the roles that the tree gives to its
nodes and finds their rows by halving the sorted ones (`ItemTree.meaning`); the second goes by the
table, with rows in any order.  They agree.

* For accepted rows, both look-ups say the same of every number (`meaning_eq_resolve`), so that both
  walks grow the same terms, one per leaf.
* A survey that stops at an unknown number has met nothing twice before.  So no node before
  this one is among its own ancestors, and growing the expression stops at the same occurrence
  (`FirstObstacle.firstDefect`).
* Leaves and rows that are not reached do not matter for the expression, which is then grown from
  what the survey has met.
-/

namespace ItemScoring

/-! ### Walks over a table -/

/-- Every leaf has one term. -/
theorem SplitTree.length_terms (tree : SplitTree) (conditions : List Expr) :
    (tree.terms conditions).length = tree.leafCount := by
  induction tree generalizing conditions with
  | leaf id coefficient => rfl
  | branch id column threshold left right ihleft ihright =>
      rw [terms, leafCount, List.length_append, ihleft, ihright]

namespace SplitTable

variable {table : SplitTable}

/-- As many nested calls as there are rows, and one more, are enough for a walk. -/
theorem termsBy_splits (table : SplitTable) (node : NodeId) (conditions : List Expr) :
    (SplitTree.termsBy table.resolve (table.splits.length + 1) [] conditions node).map
      (Except.map Expr.ofTerms) = some (table.branchExpression node conditions) := by
  have hrows : table.splitNumbers.eraseDups.length ≤ table.splits.length := by
    have hsubset : table.splitNumbers.eraseDups ⊆ table.splitNumbers :=
      fun node hnode => List.mem_eraseDups.mp hnode
    have hle := (List.subperm_of_subset (nodup_eraseDups _) hsubset).length_le
    rwa [splitNumbers, List.length_map] at hle
  have hdepth : table.splitNumbers.eraseDups.length <
      table.splits.length + 1 + ([] : List NodeId).length := by
    rw [List.length_nil]
    omega
  rw [termsBy_resolve List.nodup_nil (List.nil_subset _) hdepth, branchExpression_eq_map]
  cases table.unfold [] node with
  | error defect => rfl
  | ok tree => exact congrArg (some ∘ Except.ok) (tree.expression_eq conditions).symm

/-- If an unknown node is the first obstacle of a survey, it is the first defect of an unfolding. -/
theorem firstDefect_of_clear {o : Occurrence} {e : TreeError} (hoccurs : table.Occurs o)
    (hfaulty : table.Faulty o.node e)
    (hclear : ∀ earlier, table.Occurs earlier → Turn.Earlier earlier.turns o.turns →
      table.Clear earlier) : table.FirstDefect [] rootId e := by
  have hnodes : ∀ turns : List Turn, ∀ node, node ∈ Turn.above [] turns →
      node ∈ turns.map Turn.node := by
    intro turns node hnode
    simpa [Turn.above] using hnode
  refine ⟨o.turns, o.node, hoccurs, .fault ?_ hfaulty, fun turns last hleads hearlier => ?_⟩
  · -- An ancestor is an earlier occurrence, and stands for something.
    intro hmem
    obtain ⟨before, hbefore, hlt, -⟩ := hoccurs.exists_ancestor (hnodes _ _ hmem)
    exact hclear ⟨before, o.node⟩ hbefore hlt e (.fault hfaulty)
  · obtain ⟨hstands, hnew⟩ := clear_iff.mp (hclear ⟨turns, last⟩ hleads hearlier)
    refine ⟨fun hmem => ?_, hstands⟩
    obtain ⟨before, hbefore, hlt, -⟩ := hleads.exists_ancestor (hnodes _ _ hmem)
    exact hnew ⟨before, last⟩ hbefore hlt rfl

end SplitTable

namespace ItemTree

/-! ### What an accepted tree knows -/

/-- What a number stands for by the roles and the rows of a tree. -/
def meaning (tree : ItemTree) (node : NodeId) : Except TreeError Node :=
  match tree.kind? node with
  | some (.leaf coefficient) => .ok (.leaf coefficient)
  | some (.internal _ _) =>
    match tree.row? node with
    | none => .error (.splitNotFound node)
    | some row =>
      match row.left, row.right with
      | some left, some right => .ok (.split row.column row.threshold left right)
      | _, _ => .error (.incompleteSplit node)
  | none => .error (.splitNotFound node)

variable {splits rows : List Split} {coefficients : Coefficients} {tree : ItemTree}

/-- The roles and rows of an accepted tree say of every number what its table says. -/
theorem meaning_eq_resolve (htree : ofRows splits coefficients = .ok tree) (node : NodeId) :
    tree.meaning node = (table splits coefficients).resolve node := by
  obtain ⟨hdistinct, hchecks, -⟩ := ofRows_eq_ok_iff.mp htree
  have hfit : RowsFit splits coefficients :=
    ⟨hdistinct, fun row hrow => checkRow_eq_ok_iff_not_unfit.mp (hchecks row hrow)⟩
  rw [meaning]
  cases hkind : tree.kind? node with
  | none =>
      -- Without a role the number is neither a row nor a leaf.
      have hunknown : Unknown splits coefficients node := by
        constructor
        · intro hmem
          rw [Std.TreeMap.mem_iff_isSome_getElem?, Option.isSome_iff_exists] at hmem
          obtain ⟨coefficient, hvalue⟩ := hmem
          have hrole := (kind?_eq_some_iff htree).mpr (.leaf hvalue)
          rw [hkind] at hrole
          contradiction
        · rintro row hrow rfl
          obtain ⟨left, right, hleft, hright⟩ := exists_children (hchecks row hrow)
          have hrole := (kind?_eq_some_iff htree).mpr (.internal hrow hleft hright)
          rw [hkind] at hrole
          contradiction
      exact (SplitTable.resolve_eq_error_iff.mpr (hfit.faulty_iff.mpr ⟨hunknown, rfl⟩)).symm
  | some kind =>
      cases (kind?_eq_some_iff htree).mp hkind with
      | @leaf _ coefficient value => exact (resolve_leaf_iff.mpr value).symm
      | @internal row left right mem left_eq right_eq =>
          have hfind := (row?_eq_some_iff htree).mpr ⟨mem, rfl⟩
          have hresolved := resolve_row hdistinct mem (hchecks row mem) left_eq right_eq
          rw [resolve_of_perm (sortRows_perm splits) (nodup_sortRows hdistinct)] at hresolved
          simp only [hfind, left_eq, right_eq, hresolved]

theorem branchExpression_of_perm (hperm : rows.Perm splits)
    (hdistinct : (splits.map Split.number).Nodup) :
    (table rows coefficients).branchExpression rootId [] =
      (table splits coefficients).branchExpression rootId [] := by
  have hrows : (rows.map Split.number).Nodup := (hperm.map Split.number).nodup_iff.mpr hdistinct
  rw [SplitTable.branchExpression, SplitTable.branchExpression,
    SplitTable.unfold_congr (resolve_of_perm hperm hrows coefficients)]

/-- The expression of an accepted tree is grown from its rows in any order. -/
theorem branchExpression_of_accepted (hperm : rows.Perm splits)
    (htree : ofRows splits coefficients = .ok tree) :
    (table rows coefficients).branchExpression rootId [] = .ok tree.expression := by
  obtain ⟨hdistinct, -, -, hsplits, -⟩ := ofRows_eq_ok_iff.mp htree
  have hexpression := branchExpression_eq htree
  have hsorted : tree.splits.Perm splits := hsplits ▸ sortRows_perm splits
  rwa [branchExpression_of_perm hsorted hdistinct,
    ← branchExpression_of_perm hperm hdistinct] at hexpression

/-- Going by the roles and the rows of an accepted tree comes to its expression. -/
theorem termsBy_meaning (htree : ofRows splits coefficients = .ok tree) :
    (SplitTree.termsBy tree.meaning (tree.splits.length + 1) [] [] rootId).map
      (Except.map Expr.ofTerms) = some (.ok tree.expression) := by
  obtain ⟨-, -, -, hsplits, -⟩ := ofRows_eq_ok_iff.mp htree
  have hmeaning : tree.meaning = (table splits coefficients).resolve :=
    funext (meaning_eq_resolve htree)
  have hlength : tree.splits.length = (table splits coefficients).splits.length := by
    rw [hsplits, (sortRows_perm splits).length_eq]
    rfl
  rw [hmeaning, hlength, SplitTable.termsBy_splits,
    branchExpression_of_accepted (.refl splits) htree]

/-! ### Refused rows -/

/-- An unknown number that stops a survey stops the growing of the expression. -/
theorem branchExpression_of_splitNotFound {node : NodeId}
    (h : ofRows splits coefficients = .error (.splitNotFound node)) :
    (table splits coefficients).branchExpression rootId [] = .error (.splitNotFound node) := by
  cases ofRows_eq_error_iff.mp h with
  | unknown fit first unknown =>
      apply (SplitTable.branchExpression_eq_error_iff _ _ _ _).mpr
      apply SplitTable.firstDefect_of_clear first.occurs (fit.faulty_iff.mpr ⟨unknown, rfl⟩)
      intro earlier hoccurs hearlier
      exact fit.clear_iff_passes.mpr (first.passed earlier hoccurs hearlier)

/-- Rows of which every occurrence passes have an expression, whether or not all are reached. -/
theorem RowsFit.exists_branchExpression (hfit : RowsFit splits coefficients)
    (hpassed : ∀ o, (table splits coefficients).Occurs o → Passes splits coefficients o) :
    ∃ expression,
      (table splits coefficients).branchExpression rootId [] = .ok expression := by
  obtain ⟨last, hlast⟩ := hfit.exists_run_iff.mpr hpassed
  obtain ⟨shape, hfollows, hroot, -⟩ := Survey.start_run_eq_ok_iff.mp hlast
  have hunfold : (table splits coefficients).unfold [] shape.id = .ok shape :=
    SplitTable.unfold_of_follows hfollows (by simp)
  rw [hroot] at hunfold
  exact ⟨shape.expression [], by rw [SplitTable.branchExpression_eq_map, hunfold]; rfl⟩

theorem FirstDefect.nodup_of_ne_duplicate {e : TreeError} (h : FirstDefect splits coefficients e)
    (hne : ∀ node, e ≠ .duplicateNode node) : (splits.map Split.number).Nodup := by
  cases h with
  | duplicate => exact absurd rfl (hne _)
  | incomplete distinct => exact distinct
  | ambiguous distinct => exact distinct
  | repeated fit => exact fit.distinct
  | unknown fit => exact fit.distinct
  | unreachedLeaf fit => exact fit.distinct
  | unreachedRow fit => exact fit.distinct

/-- The tree that is accepted for some rows and the table of these rows in any order have the same
branch expression, with a term for every leaf, and the roles and rows of the tree lead to it.  Rows
that are refused for an unknown number have no expression for that reason, and rows that are
refused only because something is not reached have one. -/
theorem ofRows_branchExpression (hperm : rows.Perm splits) (coefficients : Coefficients) :
    (∀ tree, ofRows splits coefficients = .ok tree →
      (∀ node, tree.meaning node = (table rows coefficients).resolve node) ∧
      (SplitTree.termsBy tree.meaning (tree.splits.length + 1) [] [] rootId).map
        (Except.map Expr.ofTerms) = some (.ok tree.expression) ∧
      (table rows coefficients).branchExpression rootId [] = .ok tree.expression ∧
      tree.expression.summands.length = tree.leafCount) ∧
    (∀ node, ofRows splits coefficients = .error (.splitNotFound node) →
      (table rows coefficients).branchExpression rootId [] = .error (.splitNotFound node)) ∧
    ∀ node, ofRows splits coefficients = .error (.unreachableLeaf node) ∨
        ofRows splits coefficients = .error (.unreachableNode node) →
      ∃ expression, (table rows coefficients).branchExpression rootId [] = .ok expression := by
  refine ⟨fun tree htree => ⟨fun node => ?_, termsBy_meaning htree,
    branchExpression_of_accepted hperm htree, ?_⟩, fun node h => ?_, fun node h => ?_⟩
  · obtain ⟨hdistinct, -⟩ := ofRows_eq_ok_iff.mp htree
    rw [meaning_eq_resolve htree, resolve_of_perm hperm.symm hdistinct]
  · rw [expression, SplitTree.summands_expression, SplitTree.length_terms, leafCount]
  · have hdistinct := (ofRows_eq_error_iff.mp h).nodup_of_ne_duplicate (by simp)
    rw [branchExpression_of_perm hperm hdistinct, branchExpression_of_splitNotFound h]
  · rcases h with h | h
    · -- What is not reached is not in the way of the expression, which exists as the survey has
      -- passed.
      cases ofRows_eq_error_iff.mp h with
      | unreachedLeaf fit passed =>
          rw [branchExpression_of_perm hperm fit.distinct]
          exact fit.exists_branchExpression passed
    · cases ofRows_eq_error_iff.mp h with
      | unreachedRow fit passed =>
          rw [branchExpression_of_perm hperm fit.distinct]
          exact fit.exists_branchExpression passed

/-- Two rows below each other. -/
def chainRows : List Split :=
  [⟨1, 1, some 2, some 3, "age", 40⟩, ⟨1, 3, some 4, some 5, "sex", 0⟩]

/-- From the lower row first, the expression is grown with three terms; it fails with the tree if a
coefficient is missing, and is there without the tree if one is too many. -/
theorem ofRows_branchExpression_chainRows :
    let leaves := Coefficients.ofEntries [(2, 0.5), (4, -1), (5, 1)]
    let missing := Coefficients.ofEntries [(2, 0.5), (4, -1)]
    let spare := Coefficients.ofEntries [(2, 0.5), (4, -1), (5, 1), (8, 0)]
    chainRows.reverse.Perm chainRows ∧
      (∃ tree, ofRows chainRows leaves = .ok tree ∧
        (table chainRows.reverse leaves).branchExpression rootId [] = .ok tree.expression ∧
        tree.expression.summands.length = tree.leafCount ∧ tree.leafCount = 3) ∧
      (ofRows chainRows missing = .error (.splitNotFound 5) ∧
        (table chainRows.reverse missing).branchExpression rootId [] =
          .error (.splitNotFound 5)) ∧
      ofRows chainRows spare = .error (.unreachableLeaf 8) ∧
        ∃ expression,
          (table chainRows.reverse spare).branchExpression rootId [] = .ok expression := by
  intro leaves missing spare
  have hsorted : sortRows chainRows = chainRows := List.mergeSort_of_pairwise (by decide)
  have hperm : chainRows.reverse.Perm chainRows := chainRows.reverse_perm
  have haccepted : ofRows chainRows leaves = .ok ⟨chainRows,
      [(5, .leaf 1), (4, .leaf (-1)), (3, .internal 4 5), (2, .leaf 0.5), (1, .internal 2 3)],
      .branch 1 "age" 40 (.leaf 2 0.5) (.branch 3 "sex" 0 (.leaf 4 (-1)) (.leaf 5 1))⟩ := by
    rw [ofRows, hsorted]
    decide +kernel
  have hmissing : ofRows chainRows missing = .error (.splitNotFound 5) := by
    rw [ofRows, hsorted]
    decide +kernel
  have hspare : ofRows chainRows spare = .error (.unreachableLeaf 8) := by
    rw [ofRows, hsorted]
    decide +kernel
  obtain ⟨-, -, hgrown, hterms⟩ := (ofRows_branchExpression hperm leaves).1 _ haccepted
  exact ⟨hperm, ⟨_, haccepted, hgrown, hterms, rfl⟩,
    ⟨hmissing, (ofRows_branchExpression hperm missing).2.1 5 hmissing⟩,
    hspare, (ofRows_branchExpression hperm spare).2.2 8 (Or.inl hspare)⟩

end ItemTree

end ItemScoring
