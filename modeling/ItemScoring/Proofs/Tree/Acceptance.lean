import Mathlib.Data.List.Nodup
import Mathlib.Data.List.Perm.Basic
import ItemScoring.Tree.ItemTree
import ItemScoring.Proofs.Sequence
import ItemScoring.Proofs.Tree.Surveying

/-!
# Which rows an item accepts

`ItemTree.ofRows` inspects its table in several passes.  `ofRows_eq_ok_iff` sums
them up: the numbers of the rows are distinct, every row passes on its own, and
some tree without repeated numbers follows the table from the root and contains
everything that the table knows.  The last step of the construction, unfolding,
cannot fail any more.
-/

namespace ItemScoring

/-! ### Repeated numbers -/

theorem firstRepeat?_eq_none_iff {α : Type} [DecidableEq α] {earlier list : List α} :
    firstRepeat? earlier list = none ↔ list.Nodup ∧ ∀ a ∈ list, a ∉ earlier := by
  induction list generalizing earlier with
  | nil => simp [firstRepeat?]
  | cons first rest ih =>
      rw [← nodup_cons_fresh, ← ih, firstRepeat?]
      by_cases hfirst : first ∈ earlier <;> simp [hfirst]

/-! ### The map of coefficients -/

namespace Coefficients

theorem getElem?_foldl_insert {entries : List (NodeId × Float)}
    (hdistinct : (entries.map Prod.fst).Nodup) {earlier : Coefficients} {node : NodeId}
    {value : Float} :
    (entries.foldl (fun coefficients entry => coefficients.insert entry.1 entry.2) earlier)[node]? =
        some value ↔
      (node, value) ∈ entries ∨ node ∉ entries.map Prod.fst ∧ earlier[node]? = some value := by
  induction entries generalizing earlier with
  | nil => simp
  | cons first rest ih =>
      obtain ⟨id, coefficient⟩ := first
      obtain ⟨hfirst, hrest⟩ := List.nodup_cons.mp hdistinct
      rw [List.foldl_cons, ih hrest, Std.TreeMap.getElem?_insert]
      -- The key is inserted here, and by distinctness nowhere later, or the entry is about another
      -- one.
      by_cases hid : id = node
      · subst hid
        have hnew : (id, value) ∉ rest := fun h => hfirst (List.mem_map.mpr ⟨_, h, rfl⟩)
        have hnotin : id ∉ rest.map Prod.fst := hfirst
        simp [hnew, hnotin, eq_comm]
      · have hother : node ≠ id := Ne.symm hid
        simp [hid, hother]

/-- A map made of distinct entries holds exactly those. -/
theorem getElem?_ofEntries {entries : List (NodeId × Float)}
    (hdistinct : (entries.map Prod.fst).Nodup) {node : NodeId} {value : Float} :
    (ofEntries entries)[node]? = some value ↔ (node, value) ∈ entries := by
  rw [ofEntries]
  refine (getElem?_foldl_insert hdistinct).trans ?_
  simp

end Coefficients

namespace ItemTree

variable {splits : List Split} {coefficients : Coefficients}

/-! ### Rows of one number -/

theorem sortRows_perm (splits : List Split) : (sortRows splits).Perm splits :=
  List.mergeSort_perm _ _

theorem nodup_sortRows (hdistinct : (splits.map Split.number).Nodup) :
    ((sortRows splits).map Split.number).Nodup :=
  ((sortRows_perm splits).map Split.number).nodup_iff.mpr hdistinct

theorem mem_sortRows {row : Split} : row ∈ sortRows splits ↔ row ∈ splits :=
  (sortRows_perm splits).mem_iff

/-- Rows with distinct numbers are found by their numbers. -/
theorem find?_number {rows : List Split} (hdistinct : (rows.map Split.number).Nodup)
    {row : Split} (hrow : row ∈ rows) :
    rows.find? (fun other => other.number == row.number) = some row := by
  induction rows with
  | nil => simp at hrow
  | cons first rest ih =>
      obtain ⟨hfirst, hrest⟩ := List.nodup_cons.mp hdistinct
      rcases List.mem_cons.mp hrow with rfl | hmem
      · simp
      · have hother : first.number ≠ row.number := fun h =>
          hfirst (List.mem_map.mpr ⟨row, hmem, h.symm⟩)
        rw [List.find?_cons_of_neg (by simpa using hother)]
        exact ih hrest hmem

/-! ### What numbers stand for -/

/-- Leaves are exactly the nodes with coefficients. -/
theorem resolve_leaf_iff {node : NodeId} {coefficient : Float} :
    (table splits coefficients).resolve node = .ok (.leaf coefficient) ↔
      coefficients[node]? = some coefficient := by
  have hkeys : node ∈ coefficients.keys ↔ coefficients[node]?.isSome := by
    rw [Std.TreeMap.mem_keys, Std.TreeMap.mem_iff_isSome_getElem?]
  simp only [SplitTable.resolve, table, hkeys]
  cases hvalue : coefficients[node]? with
  | some value => simp
  | none =>
      simp only [Option.isSome_none, Bool.false_eq_true, if_false, reduceCtorEq, iff_false]
      intro h
      split at h
      · simp at h
      · split at h <;> simp at h

/-- A number without a coefficient stands for its row. -/
theorem resolve_split_iff (hdistinct : (splits.map Split.number).Nodup) {node left right : NodeId}
    {column : String} {threshold : Float} :
    (table splits coefficients).resolve node = .ok (.split column threshold left right) ↔
      node ∉ coefficients ∧ ∃ row ∈ splits, row.number = node ∧ row.left = some left ∧
        row.right = some right ∧ row.column = column ∧ row.threshold = threshold := by
  -- Leaf ids are looked at first, so a row counts only without a coefficient of its number.
  by_cases hmem : node ∈ coefficients
  · have hkey : node ∈ coefficients.keys := Std.TreeMap.mem_keys.mpr hmem
    simp only [SplitTable.resolve, table, hkey, if_true, hmem, not_true_eq_false, false_and,
      iff_false]
    split <;> simp
  · have hkey : node ∉ coefficients.keys := fun h => hmem (Std.TreeMap.mem_keys.mp h)
    simp only [SplitTable.resolve, table, hkey, if_false, hmem, not_false_eq_true, true_and]
    constructor
    · intro h
      split at h
      · simp at h
      next row hrow =>
        have hnumber := List.find?_some hrow
        split at h
        next left' right' hleft hright =>
          simp only [Except.ok.injEq, Node.split.injEq] at h
          obtain ⟨rfl, rfl, rfl, rfl⟩ := h
          exact ⟨row, List.mem_of_find?_eq_some hrow, by simpa using hnumber, hleft, hright,
            rfl, rfl⟩
        · simp at h
    · rintro ⟨row, hrow, rfl, hleft, hright, rfl, rfl⟩
      simp only [find?_number hdistinct hrow, hleft, hright]

/-! ### The passes -/

theorem checkRow_eq_ok_iff {row : Split} : checkRow coefficients row = .ok () ↔
    row.left.isSome ∧ row.right.isSome ∧ row.number ∉ coefficients := by
  unfold checkRow
  split
  next h =>
    simp only [reduceCtorEq, false_iff]
    rintro ⟨hleft, hright, -⟩
    rcases h with h | h <;> simp_all
  next h =>
    simp only [not_or, Option.isNone_iff_eq_none, Option.ne_none_iff_isSome] at h
    split
    next hmem => simp_all [Std.TreeMap.contains_iff_mem]
    next hmem => simp_all [Std.TreeMap.contains_iff_mem]

theorem exists_children {row : Split} (hcheck : checkRow coefficients row = .ok ()) :
    ∃ left right, row.left = some left ∧ row.right = some right := by
  obtain ⟨hleft, hright, -⟩ := checkRow_eq_ok_iff.mp hcheck
  obtain ⟨left, hleft⟩ := Option.isSome_iff_exists.mp hleft
  obtain ⟨right, hright⟩ := Option.isSome_iff_exists.mp hright
  exact ⟨left, right, hleft, hright⟩

/-- The number of a row that passes on its own stands for that row. -/
theorem resolve_row (hdistinct : (splits.map Split.number).Nodup) {row : Split}
    (hrow : row ∈ splits) (hcheck : checkRow coefficients row = .ok ()) {left right : NodeId}
    (hleft : row.left = some left) (hright : row.right = some right) :
    (table (sortRows splits) coefficients).resolve row.number =
      .ok (.split row.column row.threshold left right) := by
  have hmem := (checkRow_eq_ok_iff.mp hcheck).2.2
  apply (resolve_split_iff (nodup_sortRows hdistinct)).mpr
  exact ⟨hmem, row, mem_sortRows.mpr hrow, rfl, hleft, hright, rfl, rfl⟩

theorem checkReached_eq_ok_iff {met : List NodeId} :
    checkReached splits coefficients met = .ok () ↔
      (∀ node ∈ coefficients, node ∈ met) ∧ ∀ row ∈ splits, row.number ∈ met := by
  have hleaves : coefficients.keys.find? (· ∉ met) = none ↔ ∀ node ∈ coefficients, node ∈ met := by
    simp [List.find?_eq_none, Std.TreeMap.mem_keys]
  have hrows : (splits.map Split.number).find? (· ∉ met) = none ↔
      ∀ row ∈ splits, row.number ∈ met := by
    simp [List.find?_eq_none]
  rw [← hleaves, ← hrows, checkReached]
  cases coefficients.keys.find? (· ∉ met) with
  | some node => simp
  | none => cases (splits.map Split.number).find? (· ∉ met) <;> simp

/-! ### The whole construction -/

/-- The tree that follows the table of an item, with everything in it. -/
structure Describes (splits : List Split) (coefficients : Coefficients) (shape : SplitTree) :
    Prop where
  follows : shape.Follows (table (sortRows splits) coefficients)
  root : shape.id = rootId
  distinct : shape.ids.Nodup
  leaves : ∀ node ∈ coefficients, node ∈ shape.ids
  rows : ∀ row ∈ splits, row.number ∈ shape.ids

/-- Rows make up a tree if their numbers are distinct, each of them passes on its own,
and some tree is described by them; the roles are then those of its nodes. -/
theorem ofRows_eq_ok_iff {tree : ItemTree} :
    ofRows splits coefficients = .ok tree ↔ (splits.map Split.number).Nodup ∧
      (∀ row ∈ splits, checkRow coefficients row = .ok ()) ∧
      Describes splits coefficients tree.shape ∧ tree.splits = sortRows splits ∧
      tree.roles = tree.shape.roles.reverse := by
  have hrepeat : firstRepeat? [] ((sortRows splits).map Split.number) = none ↔
      (splits.map Split.number).Nodup := by
    rw [firstRepeat?_eq_none_iff, ((sortRows_perm splits).map Split.number).nodup_iff]
    simp
  have hchecks : (sortRows splits).forM (checkRow coefficients) = .ok () ↔
      ∀ row ∈ splits, checkRow coefficients row = .ok () := by
    simp only [forM_eq_ok, mem_sortRows]
  simp only [ofRows]
  cases hfirst : firstRepeat? [] ((sortRows splits).map Split.number) with
  | some node =>
      have : ¬ (splits.map Split.number).Nodup := by rw [← hrepeat, hfirst]; simp
      simp [this, throw, throwThe, MonadExceptOf.throw]
  | none =>
      simp only [bind_eq_ok, hrepeat.mp hfirst, true_and, hchecks]
      constructor
      · rintro ⟨⟨⟩, hrows, survey, hsurvey, ⟨⟩, hreached, shape, hshape, htree⟩
        -- The tree that the survey has found is the one that grows from the root.
        obtain ⟨found, hfollows, hroot, hdistinct, rfl⟩ := Survey.start_run_eq_ok_iff.mp hsurvey
        have hunfold : (table (sortRows splits) coefficients).unfold [] found.id = .ok found :=
          SplitTable.unfold_of_follows hfollows (by simp)
        rw [hroot, hshape, Except.ok.injEq] at hunfold
        subst hunfold
        simp only [pure, Except.pure, Except.ok.injEq] at htree
        subst htree
        simp only [checkReached_eq_ok_iff, List.mem_reverse, mem_sortRows] at hreached
        exact ⟨hrows, ⟨hfollows, hroot, hdistinct, hreached.1, hreached.2⟩, rfl, rfl⟩
      · rintro ⟨hrows, ⟨hfollows, hroot, hdistinct, hleaves, hnumbers⟩, hsplits, hroles⟩
        refine ⟨(), hrows, _, Survey.start_run_eq_ok_iff.mpr ⟨_, hfollows, hroot, hdistinct, rfl⟩,
          (), ?_, tree.shape, ?_, ?_⟩
        · simp only [checkReached_eq_ok_iff, List.mem_reverse, mem_sortRows]
          exact ⟨hleaves, hnumbers⟩
        · rw [← hroot]
          exact SplitTable.unfold_of_follows hfollows (by simp)
        · rw [← hsplits, ← hroles]
          rfl

end ItemTree

end ItemScoring
