import Mathlib.Data.List.Perm.Basic
import ItemScoring.Proofs.Tree.Acceptance

/-!
# The order of split rows

The rows of an item are sorted by number before anything else happens to them.  Rows of distinct
numbers have only one sorted order, and of rows that share a number only the number is
reported, so that the order in which rows are given makes no difference at all, not even to
the defect that is found (`ofRows_eq_of_perm`).

The map of coefficients is asked for single nodes only.  For rows that are accepted it matters
which coefficient each node has, and not in which order they came into the map
(`ofRows_eq_ok_congr`).
-/

namespace ItemScoring

namespace SplitTree

variable {table₁ table₂ : SplitTable}

/-- Tables in which all numbers stand for the same have the same trees. -/
theorem follows_congr (hresolve : ∀ node, table₁.resolve node = table₂.resolve node)
    {tree : SplitTree} : tree.Follows table₁ ↔ tree.Follows table₂ := by
  induction tree with
  | leaf id coefficient => rw [Follows, Follows, hresolve]
  | branch id column threshold left right ihleft ihright =>
      rw [Follows, Follows, hresolve, ihleft, ihright]

end SplitTree

/-! ### Walks over tables of one meaning -/

section Walks

variable {table₁ table₂ : SplitTable}
  (hresolve : ∀ node, table₁.resolve node = table₂.resolve node)
include hresolve

theorem Survey.step_congr (survey : Survey) : survey.step table₁ = survey.step table₂ := by
  simp only [step, hresolve]

/-- A survey asks only what numbers stand for. -/
theorem Survey.run_congr (survey : Survey) : run table₁ survey = run table₂ survey := by
  fun_induction run table₁ survey with
  | case1 survey hpending => rw [run, dif_pos hpending]
  | case2 survey hpending defect hstep =>
      rw [step_congr hresolve] at hstep
      rw [run, dif_neg hpending]
      split <;> simp_all
  | case3 survey hpending next hstep ih =>
      rw [step_congr hresolve] at hstep
      refine ih.trans (Eq.symm ?_)
      rw [run, dif_neg hpending]
      split <;> simp_all

/-- Unfolding asks only what numbers stand for. -/
theorem SplitTable.unfold_congr (path : List NodeId) (node : NodeId) :
    table₁.unfold path node = table₂.unfold path node := by
  fun_induction table₁.unfold path node with
  | case1 path node repeated => rw [unfold, dif_pos repeated]
  | case2 path node fresh defect resolved =>
      rw [hresolve] at resolved
      rw [unfold, dif_neg fresh]
      split <;> simp_all
  | case3 path node fresh coefficient resolved =>
      rw [hresolve] at resolved
      rw [unfold_leaf fresh resolved]
  | case4 path node fresh column threshold left right resolved ihleft ihright =>
      rw [hresolve] at resolved
      rw [unfold_split fresh resolved, ihleft, ihright]

end Walks

namespace ItemTree

variable {splits splits₁ splits₂ : List Split} {coefficients₁ coefficients₂ : Coefficients}

/-! ### Sorted rows -/

theorem pairwise_sortRows (splits : List Split) :
    (sortRows splits).Pairwise fun first second => first.number ≤ second.number := by
  have htrans : ∀ first second third : Split, decide (first.number ≤ second.number) = true →
      decide (second.number ≤ third.number) = true →
        decide (first.number ≤ third.number) = true := by
    intro first second third h h'
    simp only [decide_eq_true_eq] at h h' ⊢
    exact UInt32.le_trans h h'
  have htotal : ∀ first second : Split, (decide (first.number ≤ second.number) ||
      decide (second.number ≤ first.number)) = true := by
    intro first second
    simpa using UInt32.le_total first.number second.number
  exact (List.pairwise_mergeSort htrans htotal splits).imp of_decide_eq_true

theorem sortRows_perm_sortRows (hperm : splits₁.Perm splits₂) :
    (sortRows splits₁).Perm (sortRows splits₂) :=
  (sortRows_perm splits₁).trans (hperm.trans (sortRows_perm splits₂).symm)

/-- The sorted numbers do not depend on the order of rows, even if rows share a number. -/
theorem map_number_sortRows_eq (hperm : splits₁.Perm splits₂) :
    (sortRows splits₁).map Split.number = (sortRows splits₂).map Split.number := by
  have hsorted : ∀ splits : List Split,
      ((sortRows splits).map Split.number).Pairwise (· ≤ ·) :=
    fun splits => List.pairwise_map.mpr (pairwise_sortRows splits)
  exact ((sortRows_perm_sortRows hperm).map Split.number).eq_of_pairwise
    (fun _ _ _ _ h h' => UInt32.le_antisymm h h') (hsorted splits₁) (hsorted splits₂)

/-- Rows of distinct numbers have one sorted order. -/
theorem sortRows_eq (hperm : splits₁.Perm splits₂) (hdistinct : (splits₁.map Split.number).Nodup) :
    sortRows splits₁ = sortRows splits₂ := by
  refine (sortRows_perm_sortRows hperm).eq_of_pairwise ?_ (pairwise_sortRows splits₁)
    (pairwise_sortRows splits₂)
  intro first second hfirst hsecond hle hge
  have hmem : second ∈ splits₁ := hperm.mem_iff.mpr (mem_sortRows.mp hsecond)
  exact List.inj_on_of_nodup_map hdistinct (mem_sortRows.mp hfirst) hmem
    (UInt32.le_antisymm hle hge)

/-- A row with a number of its own is found by this number. -/
theorem find?_number_eq_some_iff {rows : List Split} (hdistinct : (rows.map Split.number).Nodup)
    {node : NodeId} {row : Split} :
    rows.find? (fun other => other.number == node) = some row ↔ row ∈ rows ∧ row.number = node := by
  constructor
  · intro h
    exact ⟨List.mem_of_find?_eq_some h, by simpa using List.find?_some h⟩
  · rintro ⟨hrow, rfl⟩
    exact find?_number hdistinct hrow

/-- What rows of distinct numbers stand for does not depend on their order. -/
theorem resolve_of_perm (hperm : splits₁.Perm splits₂)
    (hdistinct : (splits₁.map Split.number).Nodup) (coefficients : Coefficients) (node : NodeId) :
    (table splits₁ coefficients).resolve node = (table splits₂ coefficients).resolve node := by
  have hdistinct₂ := (hperm.map Split.number).nodup_iff.mp hdistinct
  have hfind : splits₁.find? (fun row => row.number == node) =
      splits₂.find? (fun row => row.number == node) := by
    apply Option.ext
    intro row
    rw [find?_number_eq_some_iff hdistinct, find?_number_eq_some_iff hdistinct₂, hperm.mem_iff]
  simp only [SplitTable.resolve, table, hfind]
  rfl

/-- The order of rows makes no difference to what they come to. -/
theorem ofRows_eq_of_perm (hperm : splits₁.Perm splits₂) (coefficients : Coefficients) :
    ofRows splits₁ coefficients = ofRows splits₂ coefficients := by
  have hnumbers := map_number_sortRows_eq hperm
  cases hrepeat : firstRepeat? [] ((sortRows splits₁).map Split.number) with
  | some node =>
      have hrepeat₂ := hnumbers ▸ hrepeat
      simp only [ofRows, hrepeat, hrepeat₂]
      rfl
  | none =>
      have hdistinct : (splits₁.map Split.number).Nodup := by
        rw [← ((sortRows_perm splits₁).map Split.number).nodup_iff]
        exact (firstRepeat?_eq_none_iff.mp hrepeat).1
      unfold ofRows
      rw [sortRows_eq hperm hdistinct]

/-! ### Coefficients -/

section Coefficients

variable (hcoefficients : ∀ node : NodeId, coefficients₁[node]? = coefficients₂[node]?)
include hcoefficients

theorem mem_congr {node : NodeId} : node ∈ coefficients₁ ↔ node ∈ coefficients₂ := by
  rw [Std.TreeMap.mem_iff_isSome_getElem?, Std.TreeMap.mem_iff_isSome_getElem?, hcoefficients]

theorem checkRow_congr (row : Split) : checkRow coefficients₁ row = checkRow coefficients₂ row := by
  have hcontains : coefficients₁.contains row.number = coefficients₂.contains row.number := by
    rw [Bool.eq_iff_iff, Std.TreeMap.contains_iff_mem, Std.TreeMap.contains_iff_mem,
      mem_congr hcoefficients]
  rw [checkRow, checkRow, hcontains]

theorem resolve_congr (node : NodeId) :
    (table splits coefficients₁).resolve node = (table splits coefficients₂).resolve node := by
  have hkeys : node ∈ coefficients₁.keys ↔ node ∈ coefficients₂.keys := by
    rw [Std.TreeMap.mem_keys, Std.TreeMap.mem_keys, mem_congr hcoefficients]
  by_cases hleaf : node ∈ coefficients₁.keys
  · simp only [SplitTable.resolve, table, hleaf, hkeys.mp hleaf, if_true, hcoefficients]
  · simp only [SplitTable.resolve, table, hleaf, mt hkeys.mpr hleaf, if_false]

theorem describes_congr {shape : SplitTree} :
    Describes splits coefficients₁ shape ↔ Describes splits coefficients₂ shape := by
  have hfollows : shape.Follows (table (sortRows splits) coefficients₁) ↔
      shape.Follows (table (sortRows splits) coefficients₂) :=
    SplitTree.follows_congr (resolve_congr hcoefficients)
  constructor
  · rintro ⟨follows, root, distinct, leaves, rows⟩
    exact ⟨hfollows.mp follows, root, distinct,
      fun node hnode => leaves node ((mem_congr hcoefficients).mpr hnode), rows⟩
  · rintro ⟨follows, root, distinct, leaves, rows⟩
    exact ⟨hfollows.mpr follows, root, distinct,
      fun node hnode => leaves node ((mem_congr hcoefficients).mp hnode), rows⟩

/-- Neither the order of rows nor the way the coefficients came together matters to an
accepted tree. -/
theorem ofRows_eq_ok_congr (hperm : splits₁.Perm splits₂) {tree : ItemTree} :
    ofRows splits₁ coefficients₁ = .ok tree ↔ ofRows splits₂ coefficients₂ = .ok tree := by
  rw [ofRows_eq_of_perm hperm, ofRows_eq_ok_iff, ofRows_eq_ok_iff, describes_congr hcoefficients]
  simp only [checkRow_congr hcoefficients]

end Coefficients

end ItemTree

end ItemScoring
