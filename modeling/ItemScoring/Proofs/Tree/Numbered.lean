import ItemScoring.Proofs.Tree.Acceptance

/-!
# Rows that are trees

What it means for split rows and leaf coefficients to be a tree can be said without
any table, walk or order of checks: there is a finite binary tree of distinct
numbers, its inner nodes are the rows and its leaves are the coefficients
(`NumberedTree.Fits`).

`ItemTree.ofRows` accepts precisely those rows, and the tree it returns gives every
row and every coefficient its role (`HasRole`), and no other number any role.
-/

namespace ItemScoring

/-- A finite binary tree of node numbers. -/
inductive NumberedTree
  | leaf (id : NodeId)
  | branch (id : NodeId) (left right : NumberedTree)

namespace NumberedTree

/-- The number at the root. -/
def id : NumberedTree → NodeId
  | leaf id => id
  | branch id _ _ => id

/-- The numbers of all nodes. -/
def ids : NumberedTree → List NodeId
  | leaf id => [id]
  | branch id left right => id :: (left.ids ++ right.ids)

/-- The numbers of the leaves. -/
def leafIds : NumberedTree → List NodeId
  | leaf id => [id]
  | branch _ left right => left.leafIds ++ right.leafIds

/-- Every inner node with its left and its right child. -/
def links : NumberedTree → List (NodeId × NodeId × NodeId)
  | leaf _ => []
  | branch id left right => (id, left.id, right.id) :: (left.links ++ right.links)

/-- The rows are the inner nodes of the tree, each of them once, and the leaves are
the nodes with coefficients. -/
structure Fits (splits : List Split) (coefficients : Coefficients) (tree : NumberedTree) :
    Prop where
  root : tree.id = rootId
  distinct : tree.ids.Nodup
  rows : (splits.map fun row => (row.number, row.left, row.right)).Perm
    (tree.links.map fun (id, left, right) => (id, some left, some right))
  leaves : ∀ node, node ∈ tree.leafIds ↔ node ∈ coefficients

/-! ### Nodes are leaves or links -/

theorem mem_ids {tree : NumberedTree} {node : NodeId} :
    node ∈ tree.ids ↔ node ∈ tree.leafIds ∨ node ∈ tree.links.map Prod.fst := by
  induction tree with
  | leaf id => simp [ids, leafIds, links]
  | branch id left right ihleft ihright =>
      simp only [ids, leafIds, links, List.mem_cons, List.mem_append, List.map_cons,
        List.map_append, ihleft, ihright]
      tauto

theorem leafIds_sublist (tree : NumberedTree) : tree.leafIds.Sublist tree.ids := by
  induction tree with
  | leaf id => exact List.Sublist.refl _
  | branch id left right ihleft ihright =>
      unfold leafIds ids
      exact List.Sublist.cons _ (ihleft.append ihright)

/-- Distinct numbers have no two links. -/
theorem nodup_links {tree : NumberedTree} (hdistinct : tree.ids.Nodup) :
    (tree.links.map Prod.fst).Nodup := by
  induction tree with
  | leaf id => simp [links]
  | branch id left right ihleft ihright =>
      simp only [ids, List.nodup_cons, List.mem_append, not_or, List.nodup_append] at hdistinct
      obtain ⟨⟨hleft, hright⟩, hnleft, hnright, hdisjoint⟩ := hdistinct
      simp only [links, List.map_cons, List.map_append, List.nodup_cons, List.mem_append, not_or,
        List.nodup_append]
      refine ⟨⟨fun h => hleft (mem_ids.mpr (Or.inr h)), fun h => hright (mem_ids.mpr (Or.inr h))⟩,
        ihleft hnleft, ihright hnright, fun a ha b hb => ?_⟩
      exact hdisjoint a (mem_ids.mpr (Or.inr ha)) b (mem_ids.mpr (Or.inr hb))

/-- Distinct numbers are not both a leaf and a link. -/
theorem leafIds_disjoint {tree : NumberedTree} (hdistinct : tree.ids.Nodup) {node : NodeId}
    (hleaf : node ∈ tree.leafIds) : node ∉ tree.links.map Prod.fst := by
  induction tree with
  | leaf id => simp [links]
  | branch id left right ihleft ihright =>
      simp only [ids, List.nodup_cons, List.mem_append, not_or, List.nodup_append] at hdistinct
      obtain ⟨⟨hleft, hright⟩, hnleft, hnright, hdisjoint⟩ := hdistinct
      simp only [leafIds, List.mem_append] at hleaf
      simp only [links, List.map_cons, List.map_append, List.mem_cons, List.mem_append, not_or]
      rcases hleaf with hleaf | hleaf
      · have hnode := mem_ids.mpr (Or.inl hleaf)
        refine ⟨fun h => hleft (h ▸ hnode), ihleft hnleft hleaf, fun hlink => ?_⟩
        exact hdisjoint node hnode node (mem_ids.mpr (Or.inr hlink)) rfl
      · have hnode := mem_ids.mpr (Or.inl hleaf)
        refine ⟨fun h => hright (h ▸ hnode), fun hlink => ?_, ihright hnright hleaf⟩
        exact hdisjoint node (mem_ids.mpr (Or.inr hlink)) node hnode rfl

end NumberedTree

/-! ### Trees without their decoration -/

namespace SplitTree

/-- The numbers of a tree, without its columns, thresholds and coefficients. -/
def numbers : SplitTree → NumberedTree
  | leaf id _ => .leaf id
  | branch id _ _ left right => .branch id left.numbers right.numbers

@[simp] theorem id_numbers (tree : SplitTree) : tree.numbers.id = tree.id := by
  cases tree <;> rfl

@[simp] theorem ids_numbers (tree : SplitTree) : tree.numbers.ids = tree.ids := by
  induction tree with
  | leaf id coefficient => rfl
  | branch id column threshold left right ihleft ihright =>
      simp [numbers, NumberedTree.ids, ids, ihleft, ihright]

variable {table : SplitTable}

/-- A link of a tree that follows a table is a split of the table. -/
theorem Follows.resolve_link {tree : SplitTree} (htree : tree.Follows table)
    {node left right : NodeId} (hlink : (node, left, right) ∈ tree.numbers.links) :
    ∃ column threshold, table.resolve node = .ok (.split column threshold left right) := by
  induction tree with
  | leaf id coefficient => simp [numbers, NumberedTree.links] at hlink
  | branch id column threshold low high ihlow ihhigh =>
      simp only [numbers, NumberedTree.links, id_numbers, List.mem_cons, Prod.mk.injEq,
        List.mem_append] at hlink
      rcases hlink with ⟨rfl, rfl, rfl⟩ | hlow | hhigh
      · exact ⟨column, threshold, htree.1⟩
      · exact ihlow htree.2.1 hlow
      · exact ihhigh htree.2.2 hhigh

/-- A leaf of a tree that follows a table is a leaf of the table. -/
theorem Follows.resolve_leaf {tree : SplitTree} (htree : tree.Follows table) {node : NodeId}
    (hleaf : node ∈ tree.numbers.leafIds) :
    ∃ coefficient, table.resolve node = .ok (.leaf coefficient) := by
  induction tree with
  | leaf id coefficient =>
      simp only [numbers, NumberedTree.leafIds, List.mem_singleton] at hleaf
      subst hleaf
      exact ⟨coefficient, htree⟩
  | branch id column threshold low high ihlow ihhigh =>
      simp only [numbers, NumberedTree.leafIds, List.mem_append] at hleaf
      rcases hleaf with hlow | hhigh
      · exact ihlow htree.2.1 hlow
      · exact ihhigh htree.2.2 hhigh

/-- Numbers whose links and leaves are those of a table belong to a tree that follows
the table. -/
theorem exists_follows {numbered : NumberedTree}
    (hlinks : ∀ node left right, (node, left, right) ∈ numbered.links →
      ∃ column threshold, table.resolve node = .ok (.split column threshold left right))
    (hleaves : ∀ node ∈ numbered.leafIds,
      ∃ coefficient, table.resolve node = .ok (.leaf coefficient)) :
    ∃ tree : SplitTree, tree.Follows table ∧ tree.numbers = numbered := by
  induction numbered with
  | leaf id =>
      obtain ⟨coefficient, hresolved⟩ := hleaves id (by simp [NumberedTree.leafIds])
      exact ⟨.leaf id coefficient, hresolved, rfl⟩
  | branch id left right ihleft ihright =>
      obtain ⟨column, threshold, hresolved⟩ :=
        hlinks id left.id right.id (by simp [NumberedTree.links])
      obtain ⟨low, hlow, rfl⟩ := ihleft
        (fun node l r h => hlinks node l r (by simp [NumberedTree.links, h]))
        (fun node h => hleaves node (by simp [NumberedTree.leafIds, h]))
      obtain ⟨high, hhigh, rfl⟩ := ihright
        (fun node l r h => hlinks node l r (by simp [NumberedTree.links, h]))
        (fun node h => hleaves node (by simp [NumberedTree.leafIds, h]))
      refine ⟨.branch id column threshold low high, ⟨?_, hlow, hhigh⟩, rfl⟩
      simpa using hresolved

end SplitTree

/-! ### Roles -/

namespace SplitTree

variable {table : SplitTable}

/-- The nodes of a tree that follows a table have the roles that the table gives them. -/
theorem Follows.mem_roles_iff {tree : SplitTree} (htree : tree.Follows table) {node : NodeId}
    {kind : NodeKind} : (node, kind) ∈ tree.roles ↔
      node ∈ tree.ids ∧ ∃ meaning, table.resolve node = .ok meaning ∧ meaning.kind = kind := by
  -- A node that occurs has the role that the table gives it, at the root of the part that it heads.
  induction tree with
  | leaf id coefficient =>
      have hresolved : table.resolve id = .ok (.leaf coefficient) := htree
      simp only [roles, ids, List.mem_singleton, Prod.mk.injEq]
      constructor
      · rintro ⟨rfl, rfl⟩
        exact ⟨rfl, _, hresolved, rfl⟩
      · rintro ⟨rfl, meaning, hmeaning, rfl⟩
        obtain rfl := Except.ok.inj (hmeaning.symm.trans hresolved)
        exact ⟨rfl, rfl⟩
  | branch id column threshold left right ihleft ihright =>
      simp only [roles, ids, List.mem_cons, List.mem_append, Prod.mk.injEq, ihleft htree.2.1,
        ihright htree.2.2]
      constructor
      · rintro (⟨rfl, rfl⟩ | ⟨hnode, hmeaning⟩ | ⟨hnode, hmeaning⟩)
        · exact ⟨Or.inl rfl, _, htree.1, rfl⟩
        · exact ⟨Or.inr (Or.inl hnode), hmeaning⟩
        · exact ⟨Or.inr (Or.inr hnode), hmeaning⟩
      · rintro ⟨rfl | hnode | hnode, meaning, hmeaning, rfl⟩
        · obtain rfl := Except.ok.inj (hmeaning.symm.trans htree.1)
          exact Or.inl ⟨rfl, rfl⟩
        · exact Or.inr (Or.inl ⟨hnode, meaning, hmeaning, rfl⟩)
        · exact Or.inr (Or.inr ⟨hnode, meaning, hmeaning, rfl⟩)

end SplitTree

/-- The roles that rows and coefficients give to node numbers. -/
inductive HasRole (splits : List Split) (coefficients : Coefficients) : NodeId → NodeKind → Prop
  | internal {row : Split} {left right : NodeId} (mem : row ∈ splits)
      (left_eq : row.left = some left) (right_eq : row.right = some right) :
      HasRole splits coefficients row.number (.internal left right)
  | leaf {node : NodeId} {coefficient : Float} (value : coefficients[node]? = some coefficient) :
      HasRole splits coefficients node (.leaf coefficient)

namespace ItemTree

variable {splits : List Split} {coefficients : Coefficients}

/-! ### From a tree that is described to one that fits -/

namespace Describes

variable {shape : SplitTree}

theorem mem_of_leaf (h : Describes splits coefficients shape) {node : NodeId}
    (hnode : node ∈ shape.numbers.leafIds) : node ∈ coefficients := by
  obtain ⟨coefficient, hresolved⟩ := h.follows.resolve_leaf hnode
  rw [Std.TreeMap.mem_iff_isSome_getElem?, resolve_leaf_iff.mp hresolved]
  rfl

theorem row_of_link (h : Describes splits coefficients shape)
    (hdistinct : (splits.map Split.number).Nodup) {node left right : NodeId}
    (hlink : (node, left, right) ∈ shape.numbers.links) : node ∉ coefficients ∧
      ∃ row ∈ splits, row.number = node ∧ row.left = some left ∧ row.right = some right := by
  obtain ⟨column, threshold, hresolved⟩ := h.follows.resolve_link hlink
  obtain ⟨hmem, row, hrow, hnumber, hleft, hright, -⟩ :=
    (resolve_split_iff (nodup_sortRows hdistinct)).mp hresolved
  exact ⟨hmem, row, mem_sortRows.mp hrow, hnumber, hleft, hright⟩

/-- A row whose number is no leaf is a link of the tree. -/
theorem link_of_row (h : Describes splits coefficients shape)
    (hdistinct : (splits.map Split.number).Nodup) {row : Split} (hrow : row ∈ splits)
    (hcheck : checkRow coefficients row = .ok ()) : ∃ left right,
      row.left = some left ∧ row.right = some right ∧
        (row.number, left, right) ∈ shape.numbers.links := by
  obtain ⟨left, right, hleft, hright⟩ := exists_children hcheck
  have hresolved := resolve_row hdistinct hrow hcheck hleft hright
  have hnode : row.number ∈ shape.numbers.ids := by simpa using h.rows row hrow
  rcases NumberedTree.mem_ids.mp hnode with hleaf | hlink
  · exact absurd (h.mem_of_leaf hleaf) (checkRow_eq_ok_iff.mp hcheck).2.2
  · obtain ⟨⟨node, left', right'⟩, hfound, hnumber⟩ := List.mem_map.mp hlink
    obtain rfl : node = row.number := hnumber
    obtain ⟨column, threshold, hresolved'⟩ := h.follows.resolve_link hfound
    have hsame := hresolved.symm.trans hresolved'
    simp only [Except.ok.injEq, Node.split.injEq] at hsame
    obtain ⟨-, -, rfl, rfl⟩ := hsame
    exact ⟨left, right, hleft, hright, hfound⟩

/-- What rows describe, they fit. -/
theorem fits (h : Describes splits coefficients shape)
    (hdistinct : (splits.map Split.number).Nodup)
    (hchecks : ∀ row ∈ splits, checkRow coefficients row = .ok ()) :
    shape.numbers.Fits splits coefficients := by
  have hids : shape.numbers.ids.Nodup := by simpa using h.distinct
  refine ⟨by simpa using h.root, hids, ?_, fun node => ⟨h.mem_of_leaf, ?_⟩⟩
  · -- Rows and links have distinct numbers, so that it is enough to compare members.
    have hnodup := NumberedTree.nodup_links hids
    refine (List.perm_ext_iff_of_nodup (List.Nodup.of_map Prod.fst ?_)
      (List.Nodup.of_map Prod.fst ?_)).mpr ?_
    · simpa [Function.comp_def] using hdistinct
    · simpa [Function.comp_def] using hnodup
    · rintro ⟨node, left?, right?⟩
      simp only [List.mem_map, Prod.mk.injEq, Prod.exists]
      constructor
      · rintro ⟨row, hrow, rfl, rfl, rfl⟩
        obtain ⟨left, right, hleft, hright, hlink⟩ :=
          h.link_of_row hdistinct hrow (hchecks row hrow)
        exact ⟨_, left, right, hlink, rfl, hleft.symm, hright.symm⟩
      · rintro ⟨node, left, right, hlink, rfl, rfl, rfl⟩
        obtain ⟨-, row, hrow, hnumber, hleft, hright⟩ := h.row_of_link hdistinct hlink
        exact ⟨row, hrow, hnumber, hleft, hright⟩
  · intro hmem
    have hnode : node ∈ shape.numbers.ids := by simpa using h.leaves node hmem
    rcases NumberedTree.mem_ids.mp hnode with hleaf | hlink
    · exact hleaf
    · obtain ⟨⟨_, left, right⟩, hfound, rfl⟩ := List.mem_map.mp hlink
      exact absurd hmem (h.row_of_link hdistinct hfound).1

end Describes

end ItemTree

/-! ### From a tree that fits to one that is accepted -/

namespace NumberedTree.Fits

open ItemTree

variable {splits : List Split} {coefficients : Coefficients} {numbered : NumberedTree}

theorem link_of_row (h : numbered.Fits splits coefficients) {row : Split} (hrow : row ∈ splits) :
    ∃ left right, row.left = some left ∧ row.right = some right ∧
      (row.number, left, right) ∈ numbered.links := by
  have hmem := h.rows.mem_iff.mp (List.mem_map.mpr ⟨row, hrow, rfl⟩)
  obtain ⟨⟨node, left, right⟩, hlink, heq⟩ := List.mem_map.mp hmem
  simp only [Prod.mk.injEq] at heq
  obtain ⟨rfl, hleft, hright⟩ := heq
  exact ⟨left, right, hleft.symm, hright.symm, hlink⟩

theorem row_of_link (h : numbered.Fits splits coefficients) {node left right : NodeId}
    (hlink : (node, left, right) ∈ numbered.links) :
    ∃ row ∈ splits, row.number = node ∧ row.left = some left ∧ row.right = some right := by
  have hmem := h.rows.mem_iff.mpr (List.mem_map.mpr ⟨_, hlink, rfl⟩)
  obtain ⟨row, hrow, heq⟩ := List.mem_map.mp hmem
  simp only [Prod.mk.injEq] at heq
  exact ⟨row, hrow, heq⟩

theorem nodup_numbers (h : numbered.Fits splits coefficients) :
    (splits.map Split.number).Nodup := by
  have hperm := h.rows.map Prod.fst
  simp only [List.map_map, Function.comp_def] at hperm
  exact hperm.nodup_iff.mpr (nodup_links h.distinct)

/-- A number that is linked is not a leaf as well. -/
theorem notMem_of_link (h : numbered.Fits splits coefficients) {node left right : NodeId}
    (hlink : (node, left, right) ∈ numbered.links) : node ∉ coefficients := by
  intro hmem
  exact leafIds_disjoint h.distinct ((h.leaves node).mpr hmem) (List.mem_map.mpr ⟨_, hlink, rfl⟩)

theorem checkRow_eq_ok (h : numbered.Fits splits coefficients) {row : Split}
    (hrow : row ∈ splits) : checkRow coefficients row = .ok () := by
  obtain ⟨left, right, hleft, hright, hlink⟩ := h.link_of_row hrow
  exact checkRow_eq_ok_iff.mpr ⟨by simp [hleft], by simp [hright], h.notMem_of_link hlink⟩

/-- The table gives every node of the tree the meaning that it has there. -/
theorem exists_follows (h : numbered.Fits splits coefficients) :
    ∃ shape : SplitTree, shape.Follows (table (sortRows splits) coefficients) ∧
      shape.numbers = numbered := by
  apply SplitTree.exists_follows
  · intro node left right hlink
    obtain ⟨row, hrow, rfl, hleft, hright⟩ := h.row_of_link hlink
    exact ⟨_, _, resolve_row h.nodup_numbers hrow (h.checkRow_eq_ok hrow) hleft hright⟩
  · intro node hnode
    have hmem := (h.leaves node).mp hnode
    rw [Std.TreeMap.mem_iff_isSome_getElem?, Option.isSome_iff_exists] at hmem
    obtain ⟨coefficient, hvalue⟩ := hmem
    exact ⟨coefficient, resolve_leaf_iff.mpr hvalue⟩

/-- Numbers that rows fit describe a tree that is accepted. -/
theorem exists_ofRows (h : numbered.Fits splits coefficients) :
    ∃ tree, ofRows splits coefficients = .ok tree := by
  obtain ⟨shape, hfollows, rfl⟩ := h.exists_follows
  refine ⟨⟨sortRows splits, shape.roles.reverse, shape⟩, ofRows_eq_ok_iff.mpr
    ⟨h.nodup_numbers, fun row hrow => h.checkRow_eq_ok hrow, ?_, rfl, rfl⟩⟩
  refine ⟨hfollows, by simpa using h.root, by simpa using h.distinct, ?_, ?_⟩
  · intro node hmem
    have hnode := mem_ids.mpr (Or.inl ((h.leaves node).mpr hmem))
    simpa using hnode
  · intro row hmem
    obtain ⟨left, right, -, -, hlink⟩ := h.link_of_row hmem
    have hnode := mem_ids.mpr (Or.inr (List.mem_map.mpr ⟨_, hlink, rfl⟩))
    simpa using hnode

end NumberedTree.Fits

/-! ### Accepted trees -/

namespace ItemTree

variable {splits : List Split} {coefficients : Coefficients}

/-- What numbers stand for among rows that pass on their own gives them their roles. -/
theorem exists_meaning_iff (hdistinct : (splits.map Split.number).Nodup)
    (hchecks : ∀ row ∈ splits, checkRow coefficients row = .ok ()) {node : NodeId}
    {kind : NodeKind} :
    (∃ meaning, (table (sortRows splits) coefficients).resolve node = .ok meaning ∧
      meaning.kind = kind) ↔ HasRole splits coefficients node kind := by
  constructor
  · rintro ⟨meaning, hresolved, rfl⟩
    cases meaning with
    | leaf coefficient => exact .leaf (resolve_leaf_iff.mp hresolved)
    | split column threshold left right =>
        obtain ⟨-, row, hrow, rfl, hleft, hright, -⟩ :=
          (resolve_split_iff (nodup_sortRows hdistinct)).mp hresolved
        exact .internal (mem_sortRows.mp hrow) hleft hright
  · intro hrole
    cases hrole with
    | internal hrow hleft hright =>
        exact ⟨_, resolve_row hdistinct hrow (hchecks _ hrow) hleft hright, rfl⟩
    | leaf hvalue => exact ⟨_, resolve_leaf_iff.mpr hvalue, rfl⟩

/-- The roles that were noted are those of the nodes of the tree. -/
theorem kind?_eq_some_iff_mem {tree : ItemTree} (h : ofRows splits coefficients = .ok tree)
    {node : NodeId} {kind : NodeKind} :
    tree.kind? node = some kind ↔ (node, kind) ∈ tree.shape.roles := by
  obtain ⟨-, -, hdescribes, -, hroles⟩ := ofRows_eq_ok_iff.mp h
  have hkeys : (tree.shape.roles.reverse.map Prod.fst).Nodup := by
    rw [List.map_reverse, SplitTree.map_fst_roles, List.nodup_reverse]
    exact hdescribes.distinct
  rw [kind?, hroles, lookup_eq_some_iff_mem hkeys, List.mem_reverse]

/-- An accepted tree gives the rows and coefficients their roles. -/
theorem kind?_eq_some_iff {tree : ItemTree} (h : ofRows splits coefficients = .ok tree)
    {node : NodeId} {kind : NodeKind} :
    tree.kind? node = some kind ↔ HasRole splits coefficients node kind := by
  obtain ⟨hdistinct, hchecks, hdescribes, -⟩ := ofRows_eq_ok_iff.mp h
  rw [kind?_eq_some_iff_mem h, hdescribes.follows.mem_roles_iff,
    exists_meaning_iff hdistinct hchecks]
  refine and_iff_right_of_imp fun hrole => ?_
  cases hrole with
  | internal hrow => exact hdescribes.rows _ hrow
  | leaf hvalue =>
      apply hdescribes.leaves
      rw [Std.TreeMap.mem_iff_isSome_getElem?, hvalue]
      rfl

/-- Rows and coefficients are accepted exactly if some tree fits them, and the tree that
is returned gives exactly the rows and the coefficients a role. -/
theorem ofRows_accepts_trees (splits : List Split) (coefficients : Coefficients) :
    ((∃ tree, ofRows splits coefficients = .ok tree) ↔
      ∃ numbered : NumberedTree, numbered.Fits splits coefficients) ∧
    ∀ tree, ofRows splits coefficients = .ok tree → ∀ node kind,
      tree.kind? node = some kind ↔ HasRole splits coefficients node kind := by
  refine ⟨⟨?_, ?_⟩, fun tree h node kind => kind?_eq_some_iff h⟩
  · rintro ⟨tree, h⟩
    obtain ⟨hdistinct, hchecks, hdescribes, -⟩ := ofRows_eq_ok_iff.mp h
    exact ⟨_, hdescribes.fits hdistinct hchecks⟩
  · rintro ⟨numbered, h⟩
    exact h.exists_ofRows

/-- Two rows in descending order make up a tree with three leaves, in which nothing but
the five nodes has a role. -/
theorem ofRows_accepts_two_rows :
    let splits : List Split :=
      [⟨1, 3, some 4, some 5, "age", 40⟩, ⟨1, 1, some 2, some 3, "sex", 0⟩]
    let coefficients := Coefficients.ofEntries [(5, 0.5), (2, -1), (4, 0)]
    ∃ tree, ofRows splits coefficients = .ok tree ∧ tree.kind? 1 = some (.internal 2 3) ∧
      tree.kind? 3 = some (.internal 4 5) ∧ tree.kind? 5 = some (.leaf 0.5) ∧
      tree.kind? 6 = none := by
  intro splits coefficients
  obtain ⟨⟨-, hbuilds⟩, hroles⟩ := ofRows_accepts_trees splits coefficients
  -- The rows span this tree, out of order as they are.
  have hfits : NumberedTree.Fits splits coefficients
      (.branch 1 (.leaf 2) (.branch 3 (.leaf 4) (.leaf 5))) := by
    refine ⟨rfl, by decide, List.Perm.swap _ _ _, fun node => ?_⟩
    simp only [coefficients, Coefficients.ofEntries, List.foldl_cons, List.foldl_nil,
      Std.TreeMap.mem_insert, Std.LawfulEqCmp.compare_eq_iff_eq]
    simp [NumberedTree.leafIds, eq_comm, or_comm, or_left_comm]
  obtain ⟨tree, htree⟩ := hbuilds ⟨_, hfits⟩
  have hrole := hroles tree htree
  refine ⟨tree, htree, (hrole _ _).mpr ?_, (hrole _ _).mpr ?_, (hrole _ _).mpr ?_, ?_⟩
  · have hmem : (⟨1, 1, some 2, some 3, "sex", 0⟩ : Split) ∈ splits := by simp [splits]
    exact .internal hmem rfl rfl
  · have hmem : (⟨1, 3, some 4, some 5, "age", 40⟩ : Split) ∈ splits := by simp [splits]
    exact .internal hmem rfl rfl
  · exact .leaf rfl
  · refine Option.eq_none_iff_forall_ne_some.mpr fun kind hkind => ?_
    have hsix := (hrole 6 kind).mp hkind
    generalize hnode : (6 : NodeId) = node at hsix
    cases hsix with
    | internal hmem =>
        simp only [splits, List.mem_cons, List.not_mem_nil, or_false] at hmem
        rcases hmem with rfl | rfl <;> simp at hnode
    | leaf hvalue =>
        subst hnode
        simp [coefficients, Coefficients.ofEntries] at hvalue

end ItemTree

end ItemScoring
