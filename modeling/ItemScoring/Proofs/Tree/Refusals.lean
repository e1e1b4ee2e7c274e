import Mathlib.Order.Bounds.Defs
import ItemScoring.Proofs.Tree.RowOrder
import ItemScoring.Proofs.Tree.Visits

/-!
# Which defect is reported

Rows may have many things wrong with them at once, and `ItemTree.ofRows` names one of them.
`ItemTree.FirstDefect` says which, without passes or worklists: the least number that two rows
share; else the least row that lacks a child or is a leaf as well; else the first occurrence, a node
before its children and left before right, of a node that has occurred already or is neither a
row nor a leaf; else the least leaf, and then the least row, that does not occur.

Each pass has a lemma.  The passes over rows, leaves and numbers run in ascending order, so that
what they find first is the least (`firstRepeat?_eq_some_iff`, `firstIn_iff_least`), and what the
survey finds is the first obstacle (`Survey.run_eq_error_iff`).  As sorting rows keeps them, what is
found is said of the rows as they were given.
-/

namespace ItemScoring

/-! ### First and least -/

/-- In ascending order the first member with a property is the least one. -/
theorem firstIn_iff_least {α : Type} {P : α → Prop} {key : α → NodeId} {list : List α} {a : α}
    (hascending : list.Pairwise fun first second => key first < key second) :
    FirstIn P list a ↔ a ∈ list ∧ P a ∧ ∀ b ∈ list, P b → key a ≤ key b := by
  constructor
  · intro hfirst
    refine ⟨hfirst.mem, hfirst.holds, fun b hb hPb => ?_⟩
    obtain ⟨before, after, rfl, hbefore, -⟩ := hfirst
    rcases List.mem_append.mp hb with hearlier | hlater
    · exact absurd hPb (hbefore b hearlier)
    · rcases List.mem_cons.mp hlater with rfl | hafter
      · exact UInt32.le_refl _
      · have htail := (List.pairwise_append.mp hascending).2.1
        exact UInt32.le_of_lt (List.rel_of_pairwise_cons htail hafter)
  · rintro ⟨hmem, hPa, hleast⟩
    obtain ⟨before, after, rfl⟩ := List.append_of_mem hmem
    refine ⟨before, after, rfl, fun b hb hPb => ?_, hPa⟩
    have hlt := (List.pairwise_append.mp hascending).2.2 b hb a List.mem_cons_self
    exact UInt32.not_lt.mpr (hleast b (by simp [hb]) hPb) hlt

/-- The first repeat stands in front of what follows and behind its own like. -/
theorem exists_of_firstRepeat? {earlier list : List NodeId} {node : NodeId}
    (h : firstRepeat? earlier list = some node) : ∃ before after, list = before ++ node :: after ∧
      node ∈ earlier ++ before ∧ before.Nodup ∧ ∀ other ∈ before, other ∉ earlier := by
  induction list generalizing earlier with
  | nil => simp [firstRepeat?] at h
  | cons first rest ih =>
      rw [firstRepeat?] at h
      by_cases hfirst : first ∈ earlier
      · rw [if_pos hfirst, Option.some.injEq] at h
        subst h
        exact ⟨[], rest, rfl, by simpa using hfirst, .nil, by simp⟩
      · rw [if_neg hfirst] at h
        obtain ⟨before, after, rfl, hmem, hnodup, hnew⟩ := ih h
        have hall := nodup_cons_fresh.mp ⟨hfirst, hnodup, hnew⟩
        refine ⟨first :: before, after, rfl, ?_, hall⟩
        simp only [List.cons_append, List.mem_cons, List.mem_append] at hmem ⊢
        tauto

/-- In ascending order the first repeat is the least number that occurs twice. -/
theorem firstRepeat?_eq_some_iff {list : List NodeId} (hascending : list.Pairwise (· ≤ ·))
    {node : NodeId} : firstRepeat? [] list = some node ↔
      IsLeast {number | 2 ≤ list.count number} node := by
  have hleast : ∀ node, firstRepeat? [] list = some node →
      IsLeast {number | 2 ≤ list.count number} node := by
    intro node h
    obtain ⟨before, after, rfl, hmem, hnodup, -⟩ := exists_of_firstRepeat? h
    have hbefore : 0 < before.count node := List.count_pos_iff.mpr (by simpa using hmem)
    constructor
    · change 2 ≤ (before ++ node :: after).count node
      rw [List.count_append, List.count_cons_self]
      omega
    · intro other hother
      by_contra hlt
      -- Nothing from the repeat on is as small, and before it nothing occurs twice.
      have habsent : other ∉ node :: after := by
        intro hlater
        rcases List.mem_cons.mp hlater with rfl | hafter
        · exact hlt (UInt32.le_refl _)
        · exact hlt (List.rel_of_pairwise_cons (List.pairwise_append.mp hascending).2.1 hafter)
      have honce := List.nodup_iff_count_le_one.mp hnodup other
      change 2 ≤ (before ++ node :: after).count other at hother
      rw [List.count_append, List.count_eq_zero.mpr habsent] at hother
      omega
  refine ⟨hleast node, fun hnode => ?_⟩
  cases hrepeat : firstRepeat? [] list with
  | none =>
      have honce := List.nodup_iff_count_le_one.mp (firstRepeat?_eq_none_iff.mp hrepeat).1 node
      have htwice : 2 ≤ list.count node := hnode.1
      omega
  | some found =>
      have hfound := hleast found hrepeat
      rw [UInt32.le_antisymm (hfound.2 hnode.1) (hnode.2 hfound.1)]

namespace ItemTree

/-! ### Defects -/

/-- The row lacks a child, or is a leaf as well. -/
def Unfit (coefficients : Coefficients) (row : Split) : Prop :=
  (row.left = none ∨ row.right = none) ∨ row.number ∈ coefficients

/-- No two rows share a number, and no row is unfit. -/
structure RowsFit (splits : List Split) (coefficients : Coefficients) : Prop where
  distinct : (splits.map Split.number).Nodup
  fit : ∀ row ∈ splits, ¬ Unfit coefficients row

/-- The node has occurred before. -/
def Repeated (splits : List Split) (coefficients : Coefficients) (o : Occurrence) : Prop :=
  ∃ earlier, (table splits coefficients).Occurs earlier ∧ earlier.node = o.node ∧
    Turn.Earlier earlier.turns o.turns

/-- The node is neither a row nor a leaf. -/
def Unknown (splits : List Split) (coefficients : Coefficients) (node : NodeId) : Prop :=
  node ∉ coefficients ∧ ∀ row ∈ splits, row.number ≠ node

/-- The occurrence is the first one of a node that is known. -/
def Passes (splits : List Split) (coefficients : Coefficients) (o : Occurrence) : Prop :=
  ¬ Repeated splits coefficients o ∧ ¬ Unknown splits coefficients o.node

/-- The occurrence comes before all that do not pass, but for itself. -/
structure ReachedFirst (splits : List Split) (coefficients : Coefficients) (o : Occurrence) :
    Prop where
  occurs : (table splits coefficients).Occurs o
  passed : ∀ earlier, (table splits coefficients).Occurs earlier →
    Turn.Earlier earlier.turns o.turns → Passes splits coefficients earlier

/-- The node occurs below the root, or is the root. -/
def Reached (splits : List Split) (coefficients : Coefficients) (node : NodeId) : Prop :=
  ∃ turns, (table splits coefficients).Leads rootId turns node

/-- The error names the first defect of the rows, in the order in which they are inspected. -/
inductive FirstDefect (splits : List Split) (coefficients : Coefficients) : TreeError → Prop
  | duplicate {node : NodeId}
      (least : IsLeast {number | 2 ≤ (splits.map Split.number).count number} node) :
      FirstDefect splits coefficients (.duplicateNode node)
  | incomplete {row : Split} (distinct : (splits.map Split.number).Nodup) (mem : row ∈ splits)
      (lacks : row.left = none ∨ row.right = none)
      (least : ∀ other ∈ splits, Unfit coefficients other → row.number ≤ other.number) :
      FirstDefect splits coefficients (.incompleteSplit row.number)
  | ambiguous {row : Split} (distinct : (splits.map Split.number).Nodup) (mem : row ∈ splits)
      (complete : row.left.isSome ∧ row.right.isSome) (leaf : row.number ∈ coefficients)
      (least : ∀ other ∈ splits, Unfit coefficients other → row.number ≤ other.number) :
      FirstDefect splits coefficients (.ambiguousNode row.number)
  | repeated {o : Occurrence} (fit : RowsFit splits coefficients)
      (first : ReachedFirst splits coefficients o) (again : Repeated splits coefficients o) :
      FirstDefect splits coefficients (.cycleDetected o.node)
  | unknown {o : Occurrence} (fit : RowsFit splits coefficients)
      (first : ReachedFirst splits coefficients o)
      (unknown : Unknown splits coefficients o.node) :
      FirstDefect splits coefficients (.splitNotFound o.node)
  | unreachedLeaf {node : NodeId} (fit : RowsFit splits coefficients)
      (passed : ∀ o, (table splits coefficients).Occurs o → Passes splits coefficients o)
      (least : IsLeast {leaf | leaf ∈ coefficients ∧ ¬ Reached splits coefficients leaf} node) :
      FirstDefect splits coefficients (.unreachableLeaf node)
  | unreachedRow {node : NodeId} (fit : RowsFit splits coefficients)
      (passed : ∀ o, (table splits coefficients).Occurs o → Passes splits coefficients o)
      (leaves : ∀ leaf ∈ coefficients, Reached splits coefficients leaf)
      (least : IsLeast {number | (∃ row ∈ splits, row.number = number) ∧
        ¬ Reached splits coefficients number} node) :
      FirstDefect splits coefficients (.unreachableNode node)

variable {splits : List Split} {coefficients : Coefficients} {e : TreeError}

/-! ### Rows on their own -/

theorem checkRow_eq_ok_iff_not_unfit {row : Split} :
    checkRow coefficients row = .ok () ↔ ¬ Unfit coefficients row := by
  rw [checkRow_eq_ok_iff, Unfit, not_or, not_or, Option.isSome_iff_ne_none,
    Option.isSome_iff_ne_none, and_assoc]

theorem checkRow_eq_error_iff {row : Split} : checkRow coefficients row = .error e ↔
    ((row.left = none ∨ row.right = none) ∧ e = .incompleteSplit row.number) ∨
      (row.left.isSome ∧ row.right.isSome) ∧ row.number ∈ coefficients ∧
        e = .ambiguousNode row.number := by
  rw [checkRow]
  cases hleft : row.left with
  | none => simp [@eq_comm _ e]
  | some left =>
      cases hright : row.right with
      | none => simp [@eq_comm _ e]
      | some right =>
          by_cases hleaf : row.number ∈ coefficients
          · simp [hleaf, @eq_comm _ e]
          · simp [hleaf]

/-- Rows of distinct numbers stand in strictly ascending order once they are sorted. -/
theorem ascending_sortRows (hdistinct : (splits.map Split.number).Nodup) :
    (sortRows splits).Pairwise fun first second => first.number < second.number := by
  have hnumbers := List.pairwise_map.mp (nodup_sortRows hdistinct)
  refine (pairwise_sortRows splits).imp₂ ?_ hnumbers
  intro first second hle hne
  exact UInt32.lt_of_le_of_ne hle hne

/-- The pass over the rows finds the least unfit one. -/
theorem forM_checkRow_eq_error_iff (hdistinct : (splits.map Split.number).Nodup) :
    (sortRows splits).forM (checkRow coefficients) = .error e ↔
      ∃ row ∈ splits, checkRow coefficients row = .error e ∧
        ∀ other ∈ splits, Unfit coefficients other → row.number ≤ other.number := by
  simp only [forM_eq_error, checkRow_eq_ok_iff_not_unfit, not_not,
    firstIn_iff_least (ascending_sortRows hdistinct), mem_sortRows]
  constructor
  · rintro ⟨row, ⟨hrow, -, hleast⟩, herror⟩
    exact ⟨row, hrow, herror, hleast⟩
  · rintro ⟨row, hrow, herror, hleast⟩
    have hunfit : Unfit coefficients row := by
      by_contra hfit
      rw [checkRow_eq_ok_iff_not_unfit.mpr hfit] at herror
      contradiction
    exact ⟨row, ⟨hrow, hunfit, hleast⟩, herror⟩

/-! ### Occurrences -/

namespace RowsFit

/-- Among fit rows only unknown numbers stand for nothing. -/
theorem faulty_iff (h : RowsFit splits coefficients) {node : NodeId} :
    (table splits coefficients).Faulty node e ↔
      Unknown splits coefficients node ∧ e = .splitNotFound node := by
  constructor
  · rintro (⟨declared, missing⟩ | ⟨undeclared, missing⟩ | ⟨row_eq, missing⟩)
    · have hmem : node ∈ coefficients := Std.TreeMap.mem_keys.mp declared
      rw [Std.TreeMap.mem_iff_isSome_getElem?] at hmem
      rw [show coefficients[node]? = none from missing] at hmem
      contradiction
    · exact ⟨⟨mt Std.TreeMap.mem_keys.mpr undeclared, missing⟩, rfl⟩
    · unfold SplitTable.row? at row_eq
      split at row_eq
      · contradiction
      · exact absurd (Or.inl missing) (h.fit _ (List.mem_of_find?_eq_some row_eq))
  · rintro ⟨⟨hleaf, hrow⟩, rfl⟩
    exact .row (mt Std.TreeMap.mem_keys.mp hleaf) hrow

theorem obstacle_iff (h : RowsFit splits coefficients) {o : Occurrence} :
    (table splits coefficients).Obstacle o e ↔
      (Repeated splits coefficients o ∧ e = .cycleDetected o.node) ∨
        (Unknown splits coefficients o.node ∧ e = .splitNotFound o.node) := by
  rw [← h.faulty_iff]
  constructor
  · rintro (⟨occurs, node_eq, before⟩ | ⟨faulty⟩)
    · exact Or.inl ⟨⟨_, occurs, node_eq, before⟩, rfl⟩
    · exact Or.inr faulty
  · rintro (⟨⟨earlier, occurs, node_eq, before⟩, rfl⟩ | faulty)
    · exact .again occurs node_eq before
    · exact .fault faulty

theorem clear_iff_passes (h : RowsFit splits coefficients) {o : Occurrence} :
    (table splits coefficients).Clear o ↔ Passes splits coefficients o := by
  simp only [SplitTable.Clear, Passes, h.obstacle_iff]
  constructor
  · intro hclear
    exact ⟨fun hrepeated => hclear _ (Or.inl ⟨hrepeated, rfl⟩),
      fun hunknown => hclear _ (Or.inr ⟨hunknown, rfl⟩)⟩
  · rintro ⟨hrepeated, hunknown⟩ e (⟨h, -⟩ | ⟨h, -⟩)
    · exact hrepeated h
    · exact hunknown h

/-- The survey stops at the first occurrence that does not pass. -/
theorem run_eq_error_iff (h : RowsFit splits coefficients) :
    Survey.start.run (table splits coefficients) = .error e ↔
      ∃ o, ReachedFirst splits coefficients o ∧
        ((Repeated splits coefficients o ∧ e = .cycleDetected o.node) ∨
          (Unknown splits coefficients o.node ∧ e = .splitNotFound o.node)) := by
  rw [Survey.run_eq_error_iff]
  constructor
  · rintro ⟨o, hoccurs, hobstacle, hclear⟩
    refine ⟨o, ⟨hoccurs, fun other hother hearlier => ?_⟩, h.obstacle_iff.mp hobstacle⟩
    exact h.clear_iff_passes.mp (hclear other hother hearlier)
  · rintro ⟨o, ⟨hoccurs, hpassed⟩, hobstacle⟩
    refine ⟨o, hoccurs, h.obstacle_iff.mpr hobstacle, fun other hother hearlier => ?_⟩
    exact h.clear_iff_passes.mpr (hpassed other hother hearlier)

/-- The survey comes to its end if every occurrence passes, and has then met what is reached. -/
theorem exists_run_iff (h : RowsFit splits coefficients) :
    (∃ last, Survey.start.run (table splits coefficients) = .ok last) ↔
      ∀ o, (table splits coefficients).Occurs o → Passes splits coefficients o := by
  simp only [← h.clear_iff_passes]
  have houtcome := Survey.start_run_outcome (table splits coefficients)
  cases hrun : Survey.start.run (table splits coefficients) with
  | ok last =>
      rw [hrun] at houtcome
      obtain ⟨all, hall, -⟩ := houtcome
      refine ⟨fun _ o ho => ?_, fun _ => ⟨last, rfl⟩⟩
      rcases hall.covered o ho with hmem | ⟨next, hnext, -⟩
      · exact hall.clear hmem
      · exact absurd hnext List.not_mem_nil
  | error found =>
      rw [hrun] at houtcome
      obtain ⟨o, ho, hobstacle, -⟩ := houtcome
      simp only [reduceCtorEq, exists_false, false_iff]
      exact fun hclear => hclear o ho found hobstacle

end RowsFit

/-! ### What is not reached -/

/-- The last pass finds the least leaf that was not met, or else the least row. -/
theorem checkReached_eq_error_iff (hdistinct : (splits.map Split.number).Nodup)
    {met : List NodeId} : checkReached (sortRows splits) coefficients met = .error e ↔
      (∃ node, IsLeast {leaf | leaf ∈ coefficients ∧ leaf ∉ met} node ∧
        e = .unreachableLeaf node) ∨
      (∀ leaf ∈ coefficients, leaf ∈ met) ∧
        ∃ node, IsLeast {number | (∃ row ∈ splits, row.number = number) ∧ number ∉ met} node ∧
          e = .unreachableNode node := by
  have hkeys : coefficients.keys.Pairwise (· < ·) :=
    Std.TreeMap.ordered_keys.imp Std.compare_eq_lt.mp
  have hnumbers : ((sortRows splits).map Split.number).Pairwise (· < ·) :=
    List.pairwise_map.mpr (ascending_sortRows hdistinct)
  -- Keys and sorted numbers ascend, so the first one that was not met is the least.
  have hleaf : ∀ node, coefficients.keys.find? (· ∉ met) = some node ↔
      IsLeast {leaf | leaf ∈ coefficients ∧ leaf ∉ met} node := by
    intro node
    rw [find?_eq_some_iff_firstIn, firstIn_iff_least (show coefficients.keys.Pairwise
      fun first second => id first < id second from hkeys)]
    simp only [decide_eq_true_eq, Std.TreeMap.mem_keys, id]
    exact ⟨fun ⟨hmem, hmet, hleast⟩ => ⟨⟨hmem, hmet⟩, fun b hb => hleast b hb.1 hb.2⟩,
      fun ⟨⟨hmem, hmet⟩, hleast⟩ => ⟨hmem, hmet, fun b hb hb' => hleast ⟨hb, hb'⟩⟩⟩
  have hrow : ∀ node, ((sortRows splits).map Split.number).find? (· ∉ met) = some node ↔
      IsLeast {number | (∃ row ∈ splits, row.number = number) ∧ number ∉ met} node := by
    intro node
    rw [find?_eq_some_iff_firstIn, firstIn_iff_least (show ((sortRows splits).map _).Pairwise
      fun first second => id first < id second from hnumbers)]
    simp only [decide_eq_true_eq, List.mem_map, mem_sortRows, id]
    exact ⟨fun ⟨hmem, hmet, hleast⟩ => ⟨⟨hmem, hmet⟩, fun b hb => hleast b hb.1 hb.2⟩,
      fun ⟨⟨hmem, hmet⟩, hleast⟩ => ⟨hmem, hmet, fun b hb hb' => hleast ⟨hb, hb'⟩⟩⟩
  have hall : coefficients.keys.find? (· ∉ met) = none ↔ ∀ leaf ∈ coefficients, leaf ∈ met := by
    simp [List.find?_eq_none, Std.TreeMap.mem_keys]
  simp only [← hleaf, ← hrow, ← hall, checkReached]
  cases coefficients.keys.find? (· ∉ met) with
  | some node => simp [eq_comm]
  | none => cases ((sortRows splits).map Split.number).find? (· ∉ met) <;> simp [eq_comm]

/-! ### The passes together -/

theorem ofRows_of_firstRepeat? {node : NodeId}
    (h : firstRepeat? [] ((sortRows splits).map Split.number) = some node) :
    ofRows splits coefficients = .error (.duplicateNode node) := by
  simp only [ofRows, h]
  rfl

/-- Behind the check of numbers the order of rows is no longer seen. -/
theorem ofRows_eq_error_iff_of_nodup (hdistinct : (splits.map Split.number).Nodup) :
    ofRows splits coefficients = .error e ↔
      (sortRows splits).forM (checkRow coefficients) = .error e ∨
      RowsFit splits coefficients ∧
        (Survey.start.run (table splits coefficients) = .error e ∨
          ∃ last, Survey.start.run (table splits coefficients) = .ok last ∧
            checkReached (sortRows splits) coefficients last.met = .error e) := by
  have hrepeat : firstRepeat? [] ((sortRows splits).map Split.number) = none :=
    firstRepeat?_eq_none_iff.mpr ⟨nodup_sortRows hdistinct, by simp⟩
  have hresolve := resolve_of_perm (sortRows_perm splits) (nodup_sortRows hdistinct) coefficients
  have hfit : (sortRows splits).forM (checkRow coefficients) = .ok () ↔
      RowsFit splits coefficients := by
    simp only [forM_eq_ok, mem_sortRows, checkRow_eq_ok_iff_not_unfit]
    exact ⟨fun hchecks => ⟨hdistinct, hchecks⟩, RowsFit.fit⟩
  have hunfold : ∀ last, Survey.start.run (table splits coefficients) = .ok last →
      ∃ shape, (table splits coefficients).unfold [] rootId = .ok shape := by
    intro last hlast
    obtain ⟨shape, hfollows, hroot, -⟩ := Survey.start_run_eq_ok_iff.mp hlast
    exact ⟨shape, hroot ▸ SplitTable.unfold_of_follows hfollows (by simp)⟩
  simp only [ofRows, hrepeat, Survey.run_congr hresolve, SplitTable.unfold_congr hresolve]
  rw [bind_eq_error, ← hfit]
  refine or_congr_right ⟨?_, ?_⟩
  · rintro ⟨⟨⟩, hchecks, hrest⟩
    refine ⟨hchecks, ?_⟩
    rcases bind_eq_error.mp hrest with hrun | ⟨last, hlast, hrest⟩
    · exact Or.inl hrun
    rcases bind_eq_error.mp hrest with hreached | ⟨⟨⟩, -, hshape⟩
    · exact Or.inr ⟨last, hlast, hreached⟩
    · -- Unfolding does not fail where the survey did not.
      obtain ⟨shape, hshape'⟩ := hunfold last hlast
      rw [hshape'] at hshape
      contradiction
  · rintro ⟨hchecks, hrest⟩
    refine ⟨(), hchecks, ?_⟩
    rcases hrest with hrun | ⟨last, hlast, hreached⟩
    · rw [hrun, error_bind]
    · rw [hlast, ok_bind, hreached, error_bind]

/-- Rows that share a number are refused for the least such number, whatever else is wrong. -/
theorem ofRows_eq_error_iff_of_shared (hshared : ¬ (splits.map Split.number).Nodup) :
    ofRows splits coefficients = .error e ↔ FirstDefect splits coefficients e := by
  have hsorted : ((sortRows splits).map Split.number).Pairwise (· ≤ ·) :=
    List.pairwise_map.mpr (pairwise_sortRows splits)
  have hperm := (sortRows_perm splits).map Split.number
  have hrepeat := @firstRepeat?_eq_some_iff _ hsorted
  simp only [hperm.count_eq] at hrepeat
  -- A number is shared, so the first repetition is found before anything else is looked at.
  obtain ⟨node, hnode⟩ : ∃ node,
      firstRepeat? [] ((sortRows splits).map Split.number) = some node := by
    apply Option.ne_none_iff_exists'.mp
    intro hnone
    exact hshared (hperm.nodup_iff.mp (firstRepeat?_eq_none_iff.mp hnone).1)
  rw [ofRows_of_firstRepeat? hnode, Except.error.injEq]
  constructor
  · intro heq
    exact heq ▸ .duplicate (hrepeat.mp hnode)
  · intro hdefect
    cases hdefect with
    | duplicate least =>
        rw [← hrepeat, hnode, Option.some.injEq] at least
        rw [least]
    | incomplete distinct => exact absurd distinct hshared
    | ambiguous distinct => exact absurd distinct hshared
    | repeated fit => exact absurd fit.distinct hshared
    | unknown fit => exact absurd fit.distinct hshared
    | unreachedLeaf fit => exact absurd fit.distinct hshared
    | unreachedRow fit => exact absurd fit.distinct hshared

/-- Rows with numbers of their own are refused for the first defect that another pass finds. -/
theorem firstDefect_of_passes (hdistinct : (splits.map Split.number).Nodup)
    (h : ofRows splits coefficients = .error e) : FirstDefect splits coefficients e := by
  rw [ofRows_eq_error_iff_of_nodup hdistinct, forM_checkRow_eq_error_iff hdistinct] at h
  rcases h with ⟨row, hrow, herror, hleast⟩ | ⟨hfit, hrun | ⟨last, hlast, hreached⟩⟩
  · rcases checkRow_eq_error_iff.mp herror with ⟨hlacks, rfl⟩ | ⟨hcomplete, hleaf, rfl⟩
    · exact .incomplete hdistinct hrow hlacks hleast
    · exact .ambiguous hdistinct hrow hcomplete hleaf hleast
  · obtain ⟨o, hfirst, ⟨hagain, rfl⟩ | ⟨hunknown, rfl⟩⟩ := hfit.run_eq_error_iff.mp hrun
    · exact .repeated hfit hfirst hagain
    · exact .unknown hfit hfirst hunknown
  · have hpassed := hfit.exists_run_iff.mp ⟨last, hlast⟩
    have hmet : ∀ node, node ∈ last.met ↔ Reached splits coefficients node :=
      fun node => Survey.mem_met_iff hlast
    simp only [checkReached_eq_error_iff hdistinct, hmet] at hreached
    rcases hreached with ⟨node, hleast, rfl⟩ | ⟨hleaves, node, hleast, rfl⟩
    · exact .unreachedLeaf hfit hpassed hleast
    · exact .unreachedRow hfit hpassed hleaves hleast

/-- What is not reached is found once the survey has come to its end. -/
theorem ofRows_of_unreached (hfit : RowsFit splits coefficients)
    (hpassed : ∀ o, (table splits coefficients).Occurs o → Passes splits coefficients o)
    (hunreached : ∀ met, (∀ node, node ∈ met ↔ Reached splits coefficients node) →
      checkReached (sortRows splits) coefficients met = .error e) :
    ofRows splits coefficients = .error e := by
  obtain ⟨last, hlast⟩ := hfit.exists_run_iff.mpr hpassed
  have hreached := hunreached last.met fun node => Survey.mem_met_iff hlast
  apply (ofRows_eq_error_iff_of_nodup hfit.distinct).mpr
  exact Or.inr ⟨hfit, Or.inr ⟨last, hlast, hreached⟩⟩

/-- Each pass reports the first defect, if it is one that the pass looks for. -/
theorem ofRows_of_firstDefect (hdistinct : (splits.map Split.number).Nodup)
    (h : FirstDefect splits coefficients e) : ofRows splits coefficients = .error e := by
  have hpasses := @ofRows_eq_error_iff_of_nodup splits coefficients e hdistinct
  rw [forM_checkRow_eq_error_iff hdistinct] at hpasses
  -- No number is shared; the other defects are found by the stages of the construction in this
  -- order.
  cases h with
  | @duplicate node least =>
      have htwice : 2 ≤ (splits.map Split.number).count node := least.1
      have honce := List.nodup_iff_count_le_one.mp hdistinct node
      omega
  | incomplete distinct mem lacks least =>
      apply hpasses.mpr
      exact Or.inl ⟨_, mem, checkRow_eq_error_iff.mpr (Or.inl ⟨lacks, rfl⟩), least⟩
  | ambiguous distinct mem complete leaf least =>
      apply hpasses.mpr
      exact Or.inl ⟨_, mem, checkRow_eq_error_iff.mpr (Or.inr ⟨complete, leaf, rfl⟩), least⟩
  | repeated fit first again =>
      apply hpasses.mpr
      exact Or.inr ⟨fit, Or.inl (fit.run_eq_error_iff.mpr ⟨_, first, Or.inl ⟨again, rfl⟩⟩)⟩
  | unknown fit first unknown =>
      apply hpasses.mpr
      exact Or.inr ⟨fit, Or.inl (fit.run_eq_error_iff.mpr ⟨_, first, Or.inr ⟨unknown, rfl⟩⟩)⟩
  | unreachedLeaf fit passed least =>
      apply ofRows_of_unreached fit passed
      intro met hmet
      simp only [checkReached_eq_error_iff hdistinct, hmet]
      exact Or.inl ⟨_, least, rfl⟩
  | unreachedRow fit passed leaves least =>
      apply ofRows_of_unreached fit passed
      intro met hmet
      simp only [checkReached_eq_error_iff hdistinct, hmet]
      exact Or.inr ⟨leaves, _, least, rfl⟩

/-- Rows are refused exactly for their first defect. -/
theorem ofRows_eq_error_iff :
    ofRows splits coefficients = .error e ↔ FirstDefect splits coefficients e := by
  by_cases hdistinct : (splits.map Split.number).Nodup
  · exact ⟨firstDefect_of_passes hdistinct, ofRows_of_firstDefect hdistinct⟩
  · exact ofRows_eq_error_iff_of_shared hdistinct

/-- Rows that are refused are refused for the first of their defects, and a node that is said to be
reached twice can be reached on two ways. -/
theorem ofRows_reports_first (splits : List Split) (coefficients : Coefficients) :
    (∀ e, ofRows splits coefficients = .error e ↔ FirstDefect splits coefficients e) ∧
    ∀ node, ofRows splits coefficients = .error (.cycleDetected node) →
      ∃ first second, first ≠ second ∧ (table splits coefficients).Leads rootId first node ∧
        (table splits coefficients).Leads rootId second node := by
  refine ⟨fun e => ofRows_eq_error_iff, fun node h => ?_⟩
  cases ofRows_eq_error_iff.mp h with
  | @repeated o fit first again =>
      obtain ⟨earlier, hoccurs, hnode, hearlier⟩ := again
      refine ⟨earlier.turns, o.turns, ?_, hnode ▸ hoccurs, first.occurs⟩
      intro heq
      exact Turn.Earlier.irrefl _ (heq ▸ hearlier)

/-- Rows with a way back to the root, a number that is unknown, and a leaf and a row that are not
reached. -/
def tangledRows : List Split :=
  [⟨1, 1, some 2, some 9, "age", 40⟩, ⟨1, 2, some 4, some 1, "sex", 0⟩,
    ⟨1, 5, some 6, some 7, "sex", 0⟩]

/-- Of all that is wrong with these rows, the way back comes first. -/
theorem ofRows_reports_first_tangledRows :
    let coefficients := Coefficients.ofEntries [(4, 0.5), (8, 1)]
    ofRows tangledRows coefficients = .error (.cycleDetected 1) ∧
      FirstDefect tangledRows coefficients (.cycleDetected 1) ∧
      ∃ first second, first ≠ second ∧
        (table tangledRows coefficients).Leads rootId first 1 ∧
        (table tangledRows coefficients).Leads rootId second 1 := by
  intro coefficients
  have hsorted : sortRows tangledRows = tangledRows := List.mergeSort_of_pairwise (by decide)
  have hrefused : ofRows tangledRows coefficients = .error (.cycleDetected 1) := by
    rw [ofRows, hsorted]
    decide +kernel
  obtain ⟨hfirst, hways⟩ := ofRows_reports_first tangledRows coefficients
  exact ⟨hrefused, (hfirst _).mp hrefused, hways 1 hrefused⟩

end ItemTree

end ItemScoring
