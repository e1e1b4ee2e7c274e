import ItemScoring.Proofs.Tree.Numbered

/-!
# The leaves of an accepted tree

The leaves of a tree, read off from left to right, are a list of nodes with their coefficients.
A tree that follows a table has the leaves that the table gives to its nodes
(`Follows.mem_leaves_iff`), so that the leaves of an accepted tree are exactly the coefficients that
it was made with, each of them once (`mem_leaves_iff`, `nodup_leaves`).
-/

namespace ItemScoring

namespace SplitTree

/-- The leaves with their coefficients, from left to right. -/
def leaves : SplitTree → List (NodeId × Float)
  | leaf id coefficient => [(id, coefficient)]
  | branch _ _ _ left right => left.leaves ++ right.leaves

theorem length_leaves (tree : SplitTree) : tree.leaves.length = tree.leafCount := by
  induction tree with
  | leaf id coefficient => rfl
  | branch id column threshold left right ihleft ihright =>
      rw [leaves, leafCount, List.length_append, ihleft, ihright]

theorem map_fst_leaves (tree : SplitTree) : tree.leaves.map Prod.fst = tree.numbers.leafIds := by
  induction tree with
  | leaf id coefficient => rfl
  | branch id column threshold left right ihleft ihright =>
      rw [leaves, numbers, NumberedTree.leafIds, List.map_append, ihleft, ihright]

variable {table : SplitTable}

/-- The leaves are the nodes that the table declares as such, with their coefficients. -/
theorem Follows.mem_leaves_iff {tree : SplitTree} (htree : tree.Follows table) {node : NodeId}
    {coefficient : Float} : (node, coefficient) ∈ tree.leaves ↔
      node ∈ tree.ids ∧ table.resolve node = .ok (.leaf coefficient) := by
  induction tree with
  | leaf id found =>
      simp only [leaves, ids, List.mem_singleton, Prod.mk.injEq]
      constructor
      · rintro ⟨rfl, rfl⟩
        exact ⟨rfl, htree⟩
      · rintro ⟨rfl, hresolved⟩
        have hsame := hresolved.symm.trans htree
        simp only [Except.ok.injEq, Node.leaf.injEq] at hsame
        exact ⟨rfl, hsame⟩
  | branch id column threshold left right ihleft ihright =>
      simp only [leaves, ids, List.mem_cons, List.mem_append, ihleft htree.2.1, ihright htree.2.2]
      constructor
      · rintro (⟨hnode, hresolved⟩ | ⟨hnode, hresolved⟩)
        · exact ⟨Or.inr (Or.inl hnode), hresolved⟩
        · exact ⟨Or.inr (Or.inr hnode), hresolved⟩
      · rintro ⟨rfl | hnode | hnode, hresolved⟩
        · -- The root is a split, and no leaf.
          have hsame := hresolved.symm.trans htree.1
          simp at hsame
        · exact Or.inl ⟨hnode, hresolved⟩
        · exact Or.inr ⟨hnode, hresolved⟩

end SplitTree

namespace ItemTree

variable {splits : List Split} {coefficients : Coefficients} {tree : ItemTree}

/-- An accepted tree has a leaf for every coefficient, and no others. -/
theorem mem_leaves_iff (h : ofRows splits coefficients = .ok tree) {node : NodeId}
    {coefficient : Float} :
    (node, coefficient) ∈ tree.shape.leaves ↔ coefficients[node]? = some coefficient := by
  obtain ⟨-, -, hdescribes, -⟩ := ofRows_eq_ok_iff.mp h
  rw [hdescribes.follows.mem_leaves_iff, resolve_leaf_iff, and_iff_right_iff_imp]
  intro hvalue
  apply hdescribes.leaves
  rw [Std.TreeMap.mem_iff_isSome_getElem?, hvalue]
  rfl

theorem nodup_leaves (h : ofRows splits coefficients = .ok tree) :
    (tree.shape.leaves.map Prod.fst).Nodup := by
  obtain ⟨-, -, hdescribes, -⟩ := ofRows_eq_ok_iff.mp h
  have hids : tree.shape.numbers.ids.Nodup := by simpa using hdescribes.distinct
  rw [SplitTree.map_fst_leaves]
  exact hids.sublist tree.shape.numbers.leafIds_sublist

end ItemTree

end ItemScoring
