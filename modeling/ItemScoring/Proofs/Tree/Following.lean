import Mathlib.Data.List.Basic
import ItemScoring.Tree.Unfolding

/-!
# Trees that follow a table

A tree follows a split table if every node of it is what the table says its
number stands for.  The number of its root then determines the tree
(`Follows.eq`), and no number occurs again below itself (`Follows.id_notMem_left`
and `Follows.id_notMem_right`): a tree is finite, and the same number again
would mean the same tree again.

Unfolding finds the tree that follows the table, whenever there is one
(`SplitTable.unfold_of_follows`), and no other (`SplitTable.follows_of_unfold`).
-/

namespace ItemScoring

namespace SplitTree

/-- Every node of the tree is what the table says. -/
def Follows (table : SplitTable) : SplitTree → Prop
  | leaf id coefficient => table.resolve id = .ok (.leaf coefficient)
  | branch id column threshold left right =>
    table.resolve id = .ok (.split column threshold left.id right.id) ∧
      left.Follows table ∧ right.Follows table

theorem id_mem_ids (tree : SplitTree) : tree.id ∈ tree.ids := by
  cases tree <;> simp [id, ids]

variable {table : SplitTable}

/-- A root that stands for a leaf is a leaf. -/
theorem Follows.eq_leaf {tree : SplitTree} (htree : tree.Follows table) {node : NodeId}
    (hid : tree.id = node) {coefficient : Float}
    (hresolved : table.resolve node = .ok (.leaf coefficient)) :
    tree = .leaf node coefficient := by
  subst hid
  cases tree with
  | leaf id found =>
      have hsame := hresolved.symm.trans htree
      simp only [Except.ok.injEq, Node.leaf.injEq] at hsame
      rw [hsame]
      rfl
  | branch id column threshold left right =>
      have hsame := hresolved.symm.trans htree.1
      simp at hsame

/-- A root that stands for a split is a branch. -/
theorem Follows.eq_branch {tree : SplitTree} (htree : tree.Follows table) {node : NodeId}
    (hid : tree.id = node) {column : String} {threshold : Float} {low high : NodeId}
    (hresolved : table.resolve node = .ok (.split column threshold low high)) :
    ∃ left right : SplitTree, tree = .branch node column threshold left right ∧
      left.Follows table ∧ right.Follows table ∧ left.id = low ∧ right.id = high := by
  subst hid
  cases tree with
  | leaf id coefficient =>
      have hsame := hresolved.symm.trans htree
      simp at hsame
  | branch id column' threshold' left right =>
      have hsame := hresolved.symm.trans htree.1
      simp only [Except.ok.injEq, Node.split.injEq] at hsame
      obtain ⟨rfl, rfl, rfl, rfl⟩ := hsame
      exact ⟨left, right, rfl, htree.2.1, htree.2.2, rfl, rfl⟩

/-- The number of the root determines a tree that follows a table. -/
theorem Follows.eq {tree other : SplitTree} (htree : tree.Follows table)
    (hother : other.Follows table) (hid : tree.id = other.id) : tree = other := by
  induction tree generalizing other with
  | leaf node coefficient => exact (hother.eq_leaf hid.symm htree).symm
  | branch node column threshold left right ihleft ihright =>
      obtain ⟨low, high, rfl, hlow, hhigh, hleft, hright⟩ := hother.eq_branch hid.symm htree.1
      rw [ihleft htree.2.1 hlow hleft.symm, ihright htree.2.2 hhigh hright.symm]
      rfl

/-- Every node of a tree is the root of a part of it, which is no deeper. -/
theorem Follows.exists_part {tree : SplitTree} (htree : tree.Follows table) {node : NodeId}
    (hnode : node ∈ tree.ids) :
    ∃ part : SplitTree, part.Follows table ∧ part.id = node ∧ part.depth ≤ tree.depth := by
  induction tree with
  | leaf id coefficient =>
      simp only [ids, List.mem_singleton] at hnode
      exact ⟨_, htree, hnode.symm, Nat.le_refl _⟩
  | branch id column threshold left right ihleft ihright =>
      simp only [ids, List.mem_cons, List.mem_append] at hnode
      rcases hnode with rfl | hnode | hnode
      · exact ⟨_, htree, rfl, Nat.le_refl _⟩
      · obtain ⟨part, hpart, hid, hdepth⟩ := ihleft htree.2.1 hnode
        refine ⟨part, hpart, hid, ?_⟩
        simp only [depth]
        omega
      · obtain ⟨part, hpart, hid, hdepth⟩ := ihright htree.2.2 hnode
        refine ⟨part, hpart, hid, ?_⟩
        simp only [depth]
        omega

/-- A tree is not part of a tree that is less deep. -/
theorem Follows.id_notMem {tree part : SplitTree} (htree : tree.Follows table)
    (hpart : part.Follows table) (hdepth : part.depth < tree.depth) : tree.id ∉ part.ids := by
  intro hmem
  obtain ⟨again, hagain, hid, hle⟩ := hpart.exists_part hmem
  have := hagain.eq htree hid
  subst this
  omega

theorem Follows.id_notMem_left {id : NodeId} {column : String} {threshold : Float}
    {left right : SplitTree} (h : (branch id column threshold left right).Follows table) :
    id ∉ left.ids :=
  h.id_notMem h.2.1 (by simp only [depth]; omega)

theorem Follows.id_notMem_right {id : NodeId} {column : String} {threshold : Float}
    {left right : SplitTree} (h : (branch id column threshold left right).Follows table) :
    id ∉ right.ids :=
  h.id_notMem h.2.2 (by simp only [depth]; omega)

end SplitTree

namespace SplitTable

variable {table : SplitTable}

theorem follows_of_unfold {path : List NodeId} {node : NodeId} {tree : SplitTree}
    (h : table.unfold path node = .ok tree) : tree.Follows table ∧ tree.id = node := by
  fun_induction table.unfold path node generalizing tree with
  | case1 path node hfresh => simp at h
  | case2 path node hfresh defect hresolved => simp at h
  | case3 path node hfresh coefficient hresolved =>
      simp only [Except.ok.injEq] at h
      subst h
      exact ⟨hresolved, rfl⟩
  | case4 path node hfresh column threshold left right hresolved ihleft ihright =>
      -- A tree has grown, so neither branch has been refused.
      cases hleft : table.unfold (node :: path) left with
      | error defect => simp [hleft, bind, Except.bind] at h
      | ok low =>
          cases hright : table.unfold (node :: path) right with
          | error defect => simp [hleft, hright, bind, Except.bind] at h
          | ok high =>
              simp only [hleft, hright, bind, Except.bind, pure, Except.pure,
                Except.ok.injEq] at h
              subst h
              obtain ⟨hlow, hlowid⟩ := ihleft hleft
              obtain ⟨hhigh, hhighid⟩ := ihright hright
              refine ⟨⟨?_, hlow, hhigh⟩, rfl⟩
              rw [hresolved, hlowid, hhighid]

theorem unfold_leaf {path : List NodeId} {node : NodeId} {coefficient : Float}
    (hfresh : node ∉ path) (hresolved : table.resolve node = .ok (.leaf coefficient)) :
    table.unfold path node = .ok (.leaf node coefficient) := by
  rw [unfold, dif_neg hfresh]
  split <;> simp_all

theorem unfold_split {path : List NodeId} {node left right : NodeId} {column : String}
    {threshold : Float} (hfresh : node ∉ path)
    (hresolved : table.resolve node = .ok (.split column threshold left right)) :
    table.unfold path node = (do
      let low ← table.unfold (node :: path) left
      let high ← table.unfold (node :: path) right
      return .branch node column threshold low high) := by
  rw [unfold, dif_neg hfresh]
  split <;> simp_all

/-- Unfolding finds the tree that follows the table, if it does not meet an ancestor
of the root. -/
theorem unfold_of_follows {path : List NodeId} {tree : SplitTree} (htree : tree.Follows table)
    (hpath : ∀ node ∈ path, node ∉ tree.ids) : table.unfold path tree.id = .ok tree := by
  induction tree generalizing path with
  | leaf id coefficient =>
      have hfresh : id ∉ path := fun hmem => hpath id hmem (SplitTree.id_mem_ids _)
      exact unfold_leaf hfresh htree
  | branch id column threshold left right ihleft ihright =>
      have hfresh : id ∉ path := fun hmem => hpath id hmem (SplitTree.id_mem_ids _)
      -- The node itself does not come back below, so the way down stays free of repetitions.
      have hleft : ∀ node ∈ id :: path, node ∉ left.ids := by
        rintro node (_ | ⟨_, hnode⟩) hmem
        · exact htree.id_notMem_left hmem
        · exact hpath node hnode (by simp [SplitTree.ids, hmem])
      have hright : ∀ node ∈ id :: path, node ∉ right.ids := by
        rintro node (_ | ⟨_, hnode⟩) hmem
        · exact htree.id_notMem_right hmem
        · exact hpath node hnode (by simp [SplitTree.ids, hmem])
      rw [SplitTree.id, unfold_split hfresh htree.1, ihleft htree.2.1 hleft,
        ihright htree.2.2 hright]
      rfl

end SplitTable

end ItemScoring
