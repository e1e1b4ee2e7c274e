import ItemScoring.Proofs.Tree.Agreement
import ItemScoring.Proofs.Tree.Worklist

/-!
# One edge to every node

The rows of an item come to be surveyed if no two of them share a number and each of them passes on
its own (`ItemTree.ReachesSurvey`).  Nothing says yet that they are a tree: rows may lead round in
circles, to one node from two sides, or to nodes that are unknown.

What a survey keeps on any table (`Survey.Kept`) is said here of such rows and coefficients, without
the table in which they are looked up.  The survey ends, since it visits known nodes only and none
of them twice (`Survey.Ends.pops_le`).  If it comes to its end without an error, it has visited what
the rows lead to from the root, each node but the root by one edge and the root by none: with
nothing left pending, the balance of edges has no room for a second edge to a node that was
visited once.
-/

namespace ItemScoring

/-- A row with two different children has a child on one side only. -/
theorem Split.side_unique {row : Split} (hne : row.left ≠ row.right) {first second : Comparison}
    {child : NodeId} (hfirst : row.child? first = some child)
    (hsecond : row.child? second = some child) : first = second := by
  have hsame : row.child? first = row.child? second := hfirst.trans hsecond.symm
  cases first with
  | atMost =>
      cases second with
      | atMost => rfl
      | above => exact absurd hsame hne
  | above =>
      cases second with
      | atMost => exact absurd hsame.symm hne
      | above => rfl

namespace ItemTree

/-! ### Rows without a table -/

/-- The checks of numbers and of single rows pass, so that the rows are surveyed. -/
structure ReachesSurvey (splits : List Split) (coefficients : Coefficients) : Prop where
  numbers : firstRepeat? [] ((sortRows splits).map Split.number) = none
  rows : (sortRows splits).forM (checkRow coefficients) = .ok ()

/-- A row with the first number has the second number as a child. -/
def HasChild (splits : List Split) (parent child : NodeId) : Prop :=
  ∃ row ∈ splits, row.number = parent ∧ ∃ side, row.child? side = some child

/-- Going from rows to their children, the node can be reached from the root. -/
def LedTo (splits : List Split) (node : NodeId) : Prop :=
  Relation.ReflTransGen (HasChild splits) rootId node

/-- What holds between two visits: the visited nodes are distinct, can be reached, are known and
have their roles noted, and no child of a visited row is lost. -/
structure SurveyKeeps (splits : List Split) (coefficients : Coefficients) (survey : Survey) :
    Prop where
  distinct : survey.met.Nodup
  led_to : ∀ node ∈ survey.met, LedTo splits node
  known : ∀ node ∈ survey.met, node ∈ coefficients ∨ ∃ row ∈ splits, row.number = node
  has_role : ∀ node ∈ survey.met, ∃ kind, survey.kind? node = some kind
  kind?_iff : ∀ node kind, survey.kind? node = some kind ↔
    node ∈ survey.met ∧ HasRole splits coefficients node kind
  children : ∀ row ∈ splits, row.number ∈ survey.met → ∀ side child,
    row.child? side = some child → child ∈ survey.met ∨ child ∈ survey.pending

/-- What a survey has found at its end: it has visited what can be reached, every node but the root
as a child on one side of one visited row, and the root as a child of none. -/
structure SurveyFinds (splits : List Split) (survey : Survey) : Prop where
  met_iff : ∀ node, node ∈ survey.met ↔ LedTo splits node
  one_edge : ∀ node ∈ survey.met, node ≠ rootId → ∃! edge : Split × Comparison,
    edge.1 ∈ splits ∧ edge.1.number ∈ survey.met ∧ edge.1.child? edge.2 = some node
  no_edge : ∀ row ∈ splits, row.number ∈ survey.met → ∀ side, row.child? side ≠ some rootId

variable {splits : List Split} {coefficients : Coefficients} {node : NodeId}

theorem length_known (splits : List Split) (coefficients : Coefficients) :
    (table (sortRows splits) coefficients).known.length =
      splits.length + coefficients.size := by
  rw [SplitTable.known, List.length_append, SplitTable.splitNumbers, List.length_map, table,
    (sortRows_perm splits).length_eq, Std.TreeMap.length_keys]

namespace ReachesSurvey

variable (h : ReachesSurvey splits coefficients)
include h

theorem distinct : (splits.map Split.number).Nodup :=
  ((sortRows_perm splits).map Split.number).nodup_iff.mp (firstRepeat?_eq_none_iff.mp h.numbers).1

theorem checkRow_eq {row : Split} (hrow : row ∈ splits) : checkRow coefficients row = .ok () :=
  forM_eq_ok.mp h.rows row (mem_sortRows.mpr hrow)

/-- Rows whose survey stops are refused for what it stops at. -/
theorem ofRows_eq_error {e : TreeError}
    (hrun : Survey.start.run (table (sortRows splits) coefficients) = .error e) :
    ofRows splits coefficients = .error e := by
  simp only [ofRows, h.numbers, h.rows, hrun]
  rfl

/-- The children of a row are those that its number has in the table. -/
theorem exists_childrenOf {row : Split} (hrow : row ∈ splits) : ∃ left right,
    row.left = some left ∧ row.right = some right ∧
      (table (sortRows splits) coefficients).childrenOf row.number = [left, right] := by
  obtain ⟨left, right, hleft, hright⟩ := exists_children (h.checkRow_eq hrow)
  have hresolved := resolve_row h.distinct hrow (h.checkRow_eq hrow) hleft hright
  exact ⟨left, right, hleft, hright, SplitTable.childrenOf_of_resolve hresolved⟩

/-- The edges of the table are those of the rows. -/
theorem isChild_iff {parent child : NodeId} :
    (table (sortRows splits) coefficients).IsChild parent child ↔ HasChild splits parent child := by
  constructor
  · intro hchild
    cases hresolved : (table (sortRows splits) coefficients).resolve parent with
    | error e => simp [SplitTable.IsChild, SplitTable.childrenOf, hresolved] at hchild
    | ok meaning =>
        rw [SplitTable.IsChild, SplitTable.childrenOf_of_resolve hresolved] at hchild
        cases meaning with
        | leaf coefficient => exact absurd hchild List.not_mem_nil
        | split column threshold left right =>
            obtain ⟨-, row, hrow, hnumber, hleft, hright, -⟩ :=
              (resolve_split_iff (nodup_sortRows h.distinct)).mp hresolved
            refine ⟨row, mem_sortRows.mp hrow, hnumber, ?_⟩
            rcases List.mem_pair.mp hchild with rfl | rfl
            · exact ⟨.atMost, hleft⟩
            · exact ⟨.above, hright⟩
  · -- The rows fit, so a row has both children, and each side names one of them.
    rintro ⟨row, hrow, rfl, side, hside⟩
    obtain ⟨left, right, hleft, hright, hchildren⟩ := h.exists_childrenOf hrow
    rw [SplitTable.IsChild, hchildren, List.mem_pair]
    cases side with
    | atMost => exact Or.inl (Option.some.inj (hside.symm.trans hleft))
    | above => exact Or.inr (Option.some.inj (hside.symm.trans hright))

theorem leadsTo_iff :
    (table (sortRows splits) coefficients).LeadsTo node ↔ LedTo splits node := by
  have hedges : (table (sortRows splits) coefficients).IsChild = HasChild splits := by
    funext parent child
    exact propext h.isChild_iff
  rw [SplitTable.LeadsTo, LedTo, hedges]

/-! ### The survey of rows -/

variable {visits : Nat} {survey last : Survey}

/-- What is kept on the table is kept of the rows. -/
theorem keeps (hafter : Survey.After (table (sortRows splits) coefficients) visits survey) :
    SurveyKeeps splits coefficients survey := by
  have hkept := hafter.kept
  have hroles : ∀ node kind, survey.kind? node = some kind ↔
      node ∈ survey.met ∧ HasRole splits coefficients node kind := by
    intro node kind
    rw [hkept.kind?_iff, exists_meaning_iff h.distinct fun row => h.checkRow_eq]
  -- What is kept of the table is said of the rows and coefficients that it is made of.
  refine ⟨hkept.distinct, ?_, ?_, ?_, hroles, ?_⟩
  · intro node hnode
    exact h.leadsTo_iff.mp (hkept.reached node (List.mem_append_right _ hnode))
  · intro node hnode
    have hknown := hkept.mem_known hnode
    simp only [SplitTable.known, SplitTable.splitNumbers, table, List.mem_append, List.mem_map,
      mem_sortRows, Std.TreeMap.mem_keys] at hknown
    exact hknown.symm
  · intro node hnode
    obtain ⟨meaning, hmeaning⟩ := hkept.stands node hnode
    exact ⟨meaning.kind, (hkept.kind?_iff node _).mpr ⟨hnode, meaning, hmeaning, rfl⟩⟩
  · intro row hrow hmet side child hside
    have hchild := h.isChild_iff.mpr ⟨row, hrow, rfl, side, hside⟩
    exact (hkept.mem_of_child hmet hchild).symm

/-- When nothing is pending, two edges from visited rows to one node are one edge. -/
theorem edge_unique (hkept : Survey.Kept (table (sortRows splits) coefficients) survey)
    (hpending : survey.pending = []) {first second : Split} {firstSide secondSide : Comparison}
    (hfirst : first ∈ splits) (hsecond : second ∈ splits) (hfirstMet : first.number ∈ survey.met)
    (hsecondMet : second.number ∈ survey.met) (hfirstChild : first.child? firstSide = some node)
    (hsecondChild : second.child? secondSide = some node) :
    first = second ∧ firstSide = secondSide := by
  -- Two edges come from one node, hence from one row, and its two children differ.
  have hnumber : first.number = second.number :=
    hkept.parent_unique hpending hfirstMet hsecondMet
      (h.isChild_iff.mpr ⟨first, hfirst, rfl, firstSide, hfirstChild⟩)
      (h.isChild_iff.mpr ⟨second, hsecond, rfl, secondSide, hsecondChild⟩)
  obtain rfl : first = second := List.inj_on_of_nodup_map h.distinct hfirst hsecond hnumber
  obtain ⟨left, right, hleft, hright, hchildren⟩ := h.exists_childrenOf hfirst
  have hchildrenDistinct := hkept.nodup_childrenOf hpending hfirstMet
  rw [hchildren, List.nodup_cons, List.mem_singleton] at hchildrenDistinct
  have hne : first.left ≠ first.right := by
    rw [hleft, hright]
    exact fun heq => hchildrenDistinct.1 (Option.some.inj heq)
  exact ⟨rfl, Split.side_unique hne hfirstChild hsecondChild⟩

/-- With nothing left pending, the survey has found what the rows lead to. -/
theorem finds (hafter : Survey.After (table (sortRows splits) coefficients) visits last)
    (hpending : last.pending = []) : SurveyFinds splits last := by
  have hkept := hafter.kept
  refine ⟨fun node => (hkept.mem_met_iff hpending).trans h.leadsTo_iff, ?_, ?_⟩
  · intro node hnode hroot
    obtain ⟨parent, hparent, hchild⟩ := hkept.exists_parent hnode hroot
    obtain ⟨row, hrow, rfl, side, hside⟩ := h.isChild_iff.mp hchild
    refine ⟨(row, side), ⟨hrow, hparent, hside⟩, ?_⟩
    rintro ⟨other, otherSide⟩ ⟨hother, hotherMet, hotherChild⟩
    obtain ⟨hsame, hsides⟩ :=
      h.edge_unique hkept hpending hother hrow hotherMet hparent hotherChild hside
    exact Prod.ext hsame hsides
  · intro row hrow hmet side hside
    exact hkept.not_isChild_root hpending hmet (h.isChild_iff.mpr ⟨row, hrow, rfl, side, hside⟩)

end ReachesSurvey

/-- The roles noted at the end are those of the tree, if the rows are accepted. -/
theorem kind?_eq_of_after {visits : Nat} {last : Survey}
    (hafter : Survey.After (table (sortRows splits) coefficients) visits last)
    (hpending : last.pending = []) {tree : ItemTree} (htree : ofRows splits coefficients = .ok tree)
    (node : NodeId) : last.kind? node = tree.kind? node := by
  obtain ⟨-, -, hdescribes, -, hroles⟩ := ofRows_eq_ok_iff.mp htree
  obtain ⟨shape, hfollows, hroot, -, rfl⟩ :=
    Survey.start_run_eq_ok_iff.mp (Survey.Ends.done hafter hpending).run_eq
  obtain rfl := hfollows.eq hdescribes.follows (hroot.trans hdescribes.root.symm)
  rw [Survey.kind?, kind?, hroles]

/-- Rows that are surveyed, whether or not they are a tree, are surveyed to an end.  At most one
node more is taken off than there are rows and coefficients, and an error of the survey is the one
that the rows are refused for.  Between any two visits the visited nodes are distinct, reached,
known and have their roles, and their children are visited or pending.  At an end without error the
visited nodes are those that can be reached, each by one edge and the root by none, and the roles
are those of the tree if the rows are accepted. -/
theorem survey_ends_with_one_edge_each (h : ReachesSurvey splits coefficients) :
    let nodes := table (sortRows splits) coefficients
    (∃ pops, Survey.Ends nodes pops (Survey.start.run nodes)) ∧
    (∀ pops outcome, Survey.Ends nodes pops outcome →
      outcome = Survey.start.run nodes ∧ pops ≤ splits.length + coefficients.size + 1 ∧
        ∀ e, outcome = .error e → ofRows splits coefficients = .error e) ∧
    (∀ visits survey, Survey.After nodes visits survey →
      SurveyKeeps splits coefficients survey) ∧
    ∀ visits last, Survey.After nodes visits last → last.pending = [] →
      SurveyFinds splits last ∧ ∀ tree, ofRows splits coefficients = .ok tree →
        ∀ node, last.kind? node = tree.kind? node := by
  intro nodes
  refine ⟨Survey.exists_ends nodes, fun pops outcome hends => ⟨hends.run_eq.symm, ?_, ?_⟩,
    fun visits survey hafter => h.keeps hafter,
    fun visits last hafter hpending =>
      ⟨h.finds hafter hpending, fun tree htree => kind?_eq_of_after hafter hpending htree⟩⟩
  · have hle := hends.pops_le
    rwa [length_known] at hle
  · rintro e rfl
    exact h.ofRows_eq_error hends.run_eq

/-- A row with itself as a child. -/
def loopingRows : List Split := [⟨1, 1, some 2, some 1, "age", 40⟩]

/-- The row with itself as a child has as many nodes taken off as there can be: itself, its leaf,
and itself again.  On a chain the survey comes to its end, and the lower row has been reached as the
right child of the upper one and in no other way. -/
theorem survey_ends_with_one_edge_each_loopingRows :
    let leaf := Coefficients.ofEntries [(2, 0.5)]
    let leaves := Coefficients.ofEntries [(2, 0.5), (4, -1), (5, 1)]
    (ReachesSurvey loopingRows leaf ∧
      Survey.Ends (table (sortRows loopingRows) leaf) 3 (.error (.cycleDetected 1)) ∧
      3 = loopingRows.length + leaf.size + 1 ∧
      ofRows loopingRows leaf = .error (.cycleDetected 1)) ∧
    ReachesSurvey chainRows leaves ∧
      ∃ pops last, Survey.Ends (table (sortRows chainRows) leaves) pops (.ok last) ∧ pops ≤ 6 ∧
        last.met = [5, 4, 3, 2, 1] ∧ ∃! edge : Split × Comparison, edge.1 ∈ chainRows ∧
          edge.1.number ∈ last.met ∧ edge.1.child? edge.2 = some 3 := by
  intro leaf leaves
  constructor
  · have hsorted : sortRows loopingRows = loopingRows := List.mergeSort_singleton _
    have hreached : ReachesSurvey loopingRows leaf :=
      ⟨by rw [hsorted]; decide, by rw [hsorted]; decide +kernel⟩
    have hends : Survey.Ends (table (sortRows loopingRows) leaf) 3 (.error (.cycleDetected 1)) := by
      rw [hsorted]
      -- The root leads to a leaf and to itself, and is taken off again as the third node.
      have hfirst : Survey.After (table loopingRows leaf) 1
          ⟨[1], [(1, .internal 2 1)], [2, 1]⟩ := .visit .initial (by decide) (by decide +kernel)
      have hsecond : Survey.After (table loopingRows leaf) 2
          ⟨[2, 1], [(2, .leaf 0.5), (1, .internal 2 1)], [1]⟩ :=
        .visit hfirst (by decide) (by decide +kernel)
      exact .stopped hsecond (by decide +kernel)
    obtain ⟨-, hlaw, -⟩ := survey_ends_with_one_edge_each hreached
    exact ⟨hreached, hends, rfl, (hlaw _ _ hends).2.2 _ rfl⟩
  · have hsorted : sortRows chainRows = chainRows := List.mergeSort_of_pairwise (by decide)
    have hreached : ReachesSurvey chainRows leaves :=
      ⟨by rw [hsorted]; decide, by rw [hsorted]; decide +kernel⟩
    have hrun : Survey.start.run (table (sortRows chainRows) leaves) =
        .ok ⟨[5, 4, 3, 2, 1], [(5, .leaf 1), (4, .leaf (-1)), (3, .internal 4 5), (2, .leaf 0.5),
          (1, .internal 2 3)], []⟩ := by
      rw [hsorted]
      decide +kernel
    obtain ⟨⟨pops, hends⟩, hlaw, -, hfinds⟩ := survey_ends_with_one_edge_each hreached
    rw [hrun] at hends
    refine ⟨hreached, pops, _, hends, (hlaw _ _ hends).2.1, rfl, ?_⟩
    cases hends with
    | done hafter hpending =>
        exact (hfinds _ _ hafter hpending).1.one_edge 3 (by decide) (by decide)

end ItemTree

end ItemScoring
