import Mathlib.Algebra.Order.Ring.Nat
import Mathlib.Order.Bounds.Basic
import ItemScoring.Proofs.Tree.Agreement
import ItemScoring.Proofs.Tree.Leaves

/-!
# The size of an accepted tree

An accepted tree has one leaf for every coefficient and one branch for every row, so that the
leaves are one more than the rows.  How deep it is can be asked of the roles of its nodes alone,
going from number to number: nothing in the roles keeps such a descent from going round in
circles, but those of an accepted tree are the roles of a finite tree (`SplitTree.Plays`), and so
the descent ends (`RolesDepth`), at the length of the longest way down (`RolesPath`).
-/

namespace ItemScoring

/-! ### Going down by roles -/

/-- The ways down from a node to a leaf by the roles of nodes, with the inner nodes on them. -/
inductive RolesPath (roles : NodeId → Option NodeKind) : NodeId → List NodeId → Prop
  | leaf {node : NodeId} {coefficient : Float} (role : roles node = some (.leaf coefficient)) :
      RolesPath roles node []
  | low {node left right : NodeId} {inner : List NodeId}
      (role : roles node = some (.internal left right)) (rest : RolesPath roles left inner) :
      RolesPath roles node (node :: inner)
  | high {node left right : NodeId} {inner : List NodeId}
      (role : roles node = some (.internal left right)) (rest : RolesPath roles right inner) :
      RolesPath roles node (node :: inner)

/-- The depth below a node that a descent by roles comes to, if it ends: an inner node adds one to
the greater depth of its children, and all others have the depth zero. -/
inductive RolesDepth (roles : NodeId → Option NodeKind) : NodeId → Nat → Prop
  | stop {node : NodeId} (role : ∀ left right, roles node ≠ some (.internal left right)) :
      RolesDepth roles node 0
  | branch {node left right : NodeId} {low high : Nat}
      (role : roles node = some (.internal left right)) (lowDepth : RolesDepth roles left low)
      (highDepth : RolesDepth roles right high) : RolesDepth roles node (1 + max low high)

namespace SplitTree

/-- Every node of the tree has the role that it has there. -/
def Plays (roles : NodeId → Option NodeKind) : SplitTree → Prop
  | leaf id coefficient => roles id = some (.leaf coefficient)
  | branch id _ _ left right =>
    roles id = some (.internal left.id right.id) ∧ left.Plays roles ∧ right.Plays roles

variable {roles : NodeId → Option NodeKind} {tree : SplitTree}

/-- A tree plays its own roles, wherever each of its nodes has the one noted. -/
theorem plays_of_roles {tree : SplitTree}
    (hroles : ∀ node kind, (node, kind) ∈ tree.roles → roles node = some kind) :
    tree.Plays roles := by
  induction tree with
  | leaf id coefficient => exact hroles _ _ (List.mem_singleton_self _)
  | branch id column threshold left right ihleft ihright =>
      refine ⟨hroles _ _ List.mem_cons_self, ihleft ?_, ihright ?_⟩
      · intro node kind hmem
        exact hroles node kind (List.mem_cons_of_mem _ (List.mem_append_left _ hmem))
      · intro node kind hmem
        exact hroles node kind (List.mem_cons_of_mem _ (List.mem_append_right _ hmem))

/-- A descent from the root of a finite tree ends, at the depth of the tree. -/
theorem Plays.rolesDepth_iff (htree : tree.Plays roles) {depth : Nat} :
    RolesDepth roles tree.id depth ↔ depth = tree.depth := by
  -- A node has one role, so the recursion over roles takes the turns of the tree.
  induction tree generalizing depth with
  | leaf id coefficient =>
      have hrole : roles id = some (.leaf coefficient) := htree
      constructor
      · intro h
        cases h with
        | stop => rfl
        | branch role =>
            have hsame := hrole.symm.trans role
            simp at hsame
      · rintro rfl
        exact .stop (by simp [SplitTree.id, hrole])
  | branch id column threshold left right ihleft ihright =>
      obtain ⟨hrole, hleft, hright⟩ := htree
      constructor
      · intro h
        cases h with
        | stop role => exact absurd hrole (role _ _)
        | branch role lowDepth highDepth =>
            have hsame := hrole.symm.trans role
            simp only [Option.some.injEq, NodeKind.internal.injEq] at hsame
            obtain ⟨rfl, rfl⟩ := hsame
            rw [(ihleft hleft).mp lowDepth, (ihright hright).mp highDepth, depth]
      · rintro rfl
        exact .branch hrole ((ihleft hleft).mpr rfl) ((ihright hright).mpr rfl)

theorem Plays.length_path_le (htree : tree.Plays roles) {inner : List NodeId}
    (hpath : RolesPath roles tree.id inner) : inner.length ≤ tree.depth := by
  induction tree generalizing inner with
  | leaf id coefficient =>
      have hrole : roles id = some (.leaf coefficient) := htree
      -- A path through a branch goes on in one of its two parts, one step shorter.
      cases hpath with
      | leaf => exact Nat.le_refl _
      | low role =>
          have hsame := hrole.symm.trans role
          simp at hsame
      | high role =>
          have hsame := hrole.symm.trans role
          simp at hsame
  | branch id column threshold left right ihleft ihright =>
      obtain ⟨hrole, hleft, hright⟩ := htree
      cases hpath with
      | leaf role =>
          have hsame := hrole.symm.trans role
          simp at hsame
      | low role rest =>
          have hsame := hrole.symm.trans role
          simp only [Option.some.injEq, NodeKind.internal.injEq] at hsame
          obtain ⟨rfl, rfl⟩ := hsame
          have hle := ihleft hleft rest
          rw [List.length_cons, depth]
          omega
      | high role rest =>
          have hsame := hrole.symm.trans role
          simp only [Option.some.injEq, NodeKind.internal.injEq] at hsame
          obtain ⟨rfl, rfl⟩ := hsame
          have hle := ihright hright rest
          rw [List.length_cons, depth]
          omega

/-- Going to the deeper child every time leads as far down as the tree is deep. -/
theorem Plays.exists_path (htree : tree.Plays roles) :
    ∃ inner, RolesPath roles tree.id inner ∧ inner.length = tree.depth := by
  induction tree with
  | leaf id coefficient => exact ⟨[], .leaf htree, rfl⟩
  | branch id column threshold left right ihleft ihright =>
      obtain ⟨hrole, hleft, hright⟩ := htree
      rcases Nat.le_total left.depth right.depth with hle | hle
      · obtain ⟨inner, hpath, hlength⟩ := ihright hright
        refine ⟨id :: inner, .high hrole hpath, ?_⟩
        rw [List.length_cons, hlength, depth]
        omega
      · obtain ⟨inner, hpath, hlength⟩ := ihleft hleft
        refine ⟨id :: inner, .low hrole hpath, ?_⟩
        rw [List.length_cons, hlength, depth]
        omega

/-! ### Counting nodes -/

theorem leafCount_eq (tree : SplitTree) : tree.leafCount = tree.numbers.links.length + 1 := by
  induction tree with
  | leaf id coefficient => rfl
  | branch id column threshold left right ihleft ihright =>
      rw [leafCount, ihleft, ihright, numbers, NumberedTree.links, List.length_cons,
        List.length_append]
      omega

theorem depth_le_length_links (tree : SplitTree) : tree.depth ≤ tree.numbers.links.length := by
  induction tree with
  | leaf id coefficient => exact Nat.le_refl _
  | branch id column threshold left right ihleft ihright =>
      rw [depth, numbers, NumberedTree.links, List.length_cons, List.length_append]
      omega

theorem leafCount_le_two_pow_depth (tree : SplitTree) : tree.leafCount ≤ 2 ^ tree.depth := by
  induction tree with
  | leaf id coefficient => exact Nat.le_refl _
  | branch id column threshold left right ihleft ihright =>
      have hlow : 2 ^ left.depth ≤ 2 ^ max left.depth right.depth :=
        Nat.pow_le_pow_right (by omega) (Nat.le_max_left _ _)
      have hhigh : 2 ^ right.depth ≤ 2 ^ max left.depth right.depth :=
        Nat.pow_le_pow_right (by omega) (Nat.le_max_right _ _)
      rw [leafCount, depth, Nat.add_comm 1, Nat.pow_succ]
      omega

end SplitTree

namespace ItemTree

variable {splits : List Split} {coefficients : Coefficients} {tree : ItemTree}

/-! ### Accepted trees -/

/-- Every node of an accepted tree has its role by the tree. -/
theorem plays_of_ofRows (h : ofRows splits coefficients = .ok tree) :
    tree.shape.id = rootId ∧ tree.shape.Plays tree.kind? := by
  obtain ⟨-, -, hdescribes, -⟩ := ofRows_eq_ok_iff.mp h
  exact ⟨hdescribes.root, SplitTree.plays_of_roles fun _ _ => (kind?_eq_some_iff_mem h).mpr⟩

/-- The branches of an accepted tree are as many as the rows. -/
theorem length_links_of_ofRows (h : ofRows splits coefficients = .ok tree) :
    tree.shape.numbers.links.length = splits.length := by
  obtain ⟨hdistinct, hchecks, hdescribes, -⟩ := ofRows_eq_ok_iff.mp h
  simpa using (hdescribes.fits hdistinct hchecks).rows.length_eq.symm

/-- The leaves of an accepted tree are as many as the coefficients. -/
theorem leafCount_eq_size (h : ofRows splits coefficients = .ok tree) :
    tree.leafCount = coefficients.size := by
  have hkeys : (tree.shape.leaves.map Prod.fst).Perm coefficients.keys := by
    refine (List.perm_ext_iff_of_nodup (nodup_leaves h) coefficients.nodup_keys).mpr fun node => ?_
    rw [Std.TreeMap.mem_keys, Std.TreeMap.mem_iff_isSome_getElem?, Option.isSome_iff_exists]
    simp only [List.mem_map, Prod.exists, exists_and_right, exists_eq_right, mem_leaves_iff h]
  rw [leafCount, ← SplitTree.length_leaves, ← Std.TreeMap.length_keys, ← hkeys.length_eq,
    List.length_map]

/-- How large a tree is, and where its rows are found: one leaf for every coefficient, which are
one more than the rows; the depth at which a descent by the roles ends, and which is that of the
longest way down; and the row of every inner node, by its number. -/
structure Measured (splits : List Split) (coefficients : Coefficients) (tree : ItemTree) :
    Prop where
  leafCount_eq_size : tree.leafCount = coefficients.size
  leafCount_eq_length : tree.leafCount = splits.length + 1
  isLeaf_iff : ∀ node, (∃ coefficient, tree.kind? node = some (.leaf coefficient)) ↔
    node ∈ coefficients
  depth_iff : ∀ depth, RolesDepth tree.kind? rootId depth ↔ depth = tree.depth
  isGreatest_depth : IsGreatest {length | ∃ inner, RolesPath tree.kind? rootId inner ∧
    inner.length = length} tree.depth
  depth_le : tree.depth ≤ splits.length
  leafCount_le : tree.leafCount ≤ 2 ^ tree.depth
  ascending : tree.splits.Pairwise fun first second => first.number < second.number
  row?_eq_some_iff : ∀ number row, tree.row? number = some row ↔
    row ∈ splits ∧ row.number = number
  isInternal_iff : ∀ node left right, tree.kind? node = some (.internal left right) ↔
    ∃ row, tree.row? node = some row ∧ row.left = some left ∧ row.right = some right

theorem isInternal_iff (h : ofRows splits coefficients = .ok tree) {node left right : NodeId} :
    tree.kind? node = some (.internal left right) ↔
      ∃ row, tree.row? node = some row ∧ row.left = some left ∧ row.right = some right := by
  rw [kind?_eq_some_iff h]
  simp only [row?_eq_some_iff h]
  constructor
  · rintro ⟨hmem, hleft, hright⟩
    exact ⟨_, ⟨hmem, rfl⟩, hleft, hright⟩
  · rintro ⟨row, ⟨hmem, rfl⟩, hleft, hright⟩
    exact .internal hmem hleft hright

theorem isLeaf_iff (h : ofRows splits coefficients = .ok tree) {node : NodeId} :
    (∃ coefficient, tree.kind? node = some (.leaf coefficient)) ↔ node ∈ coefficients := by
  simp only [kind?_eq_some_iff h]
  rw [Std.TreeMap.mem_iff_isSome_getElem?, Option.isSome_iff_exists]
  constructor
  · rintro ⟨coefficient, hrole⟩
    cases hrole with
    | leaf value => exact ⟨coefficient, value⟩
  · rintro ⟨coefficient, hvalue⟩
    exact ⟨coefficient, .leaf hvalue⟩

/-- An accepted tree has the size that its rows and coefficients say, and its rows are found. -/
theorem ofRows_measured (h : ofRows splits coefficients = .ok tree) :
    Measured splits coefficients tree := by
  obtain ⟨hroot, hplays⟩ := plays_of_ofRows h
  have hlinks := length_links_of_ofRows h
  refine ⟨leafCount_eq_size h, ?_, fun node => isLeaf_iff h, ?_, ⟨?_, ?_⟩, ?_, ?_,
    pairwise_splits h, fun number row => row?_eq_some_iff h, fun node left right =>
    isInternal_iff h⟩
  · rw [leafCount, SplitTree.leafCount_eq, hlinks]
  · intro depth
    rw [← hroot]
    exact hplays.rolesDepth_iff
  · rw [← hroot]
    exact hplays.exists_path
  · rintro _ ⟨inner, hpath, rfl⟩
    rw [← hroot] at hpath
    exact hplays.length_path_le hpath
  · exact hlinks ▸ tree.shape.depth_le_length_links
  · exact tree.shape.leafCount_le_two_pow_depth

/-- Two rows below each other, the lower one first: three leaves, a depth of two, and both rows are
found by their numbers. -/
theorem ofRows_measured_chainRows :
    let leaves := Coefficients.ofEntries [(2, 0.5), (4, -1), (5, 1)]
    ∃ tree, ofRows chainRows.reverse leaves = .ok tree ∧
      Measured chainRows.reverse leaves tree ∧ tree.leafCount = 3 ∧ tree.depth = 2 ∧
      tree.row? 3 = some ⟨1, 3, some 4, some 5, "sex", 0⟩ ∧ tree.row? 2 = none := by
  intro leaves
  have hsorted : sortRows chainRows = chainRows := List.mergeSort_of_pairwise (by decide)
  have haccepted : ofRows chainRows.reverse leaves = .ok ⟨chainRows,
      [(5, .leaf 1), (4, .leaf (-1)), (3, .internal 4 5), (2, .leaf 0.5), (1, .internal 2 3)],
      .branch 1 "age" 40 (.leaf 2 0.5) (.branch 3 "sex" 0 (.leaf 4 (-1)) (.leaf 5 1))⟩ := by
    rw [ofRows_eq_of_perm chainRows.reverse_perm, ofRows, hsorted]
    decide +kernel
  have hmeasured := ofRows_measured haccepted
  refine ⟨_, haccepted, hmeasured, hmeasured.leafCount_eq_length, rfl, ?_, ?_⟩
  · exact (hmeasured.row?_eq_some_iff _ _).mpr (by decide)
  · -- No row has the number of a leaf.
    exact Option.eq_none_iff_forall_ne_some.mpr fun row hrow =>
      absurd ((hmeasured.row?_eq_some_iff _ _).mp hrow) (by
        rintro ⟨hmem, hnumber⟩
        simp only [chainRows, List.mem_reverse, List.mem_cons, List.not_mem_nil, or_false] at hmem
        rcases hmem with rfl | rfl <;> simp at hnumber)

end ItemTree

end ItemScoring
