import Mathlib.Data.List.Lattice
import Mathlib.Data.List.Pairwise
import Mathlib.Data.List.Perm.Subperm
import Mathlib.Logic.Relation
import ItemScoring.Proofs.Tree.Surveying

/-!
# What a survey keeps

A survey takes node after node off its list of pending nodes, and the list grows and shrinks and
may name a node several times.  This file follows it from visit to visit, on any table
(`Survey.After`).

## What every visit keeps

* The visited nodes are distinct, and each of them stands for something.  The roles noted are
  theirs, and nobody else's.
* What is visited or pending can be reached from the root.
* *The balance of edges.*  The nodes visited and the nodes pending are together, each as often as it
  is named, the root and the children of the nodes visited.  Visiting a node moves it from one
  side of the first list to the other, and adds its children to both lists.

The second list has one entry for every edge that leaves a visited node.  So the balance says at
once that children are not lost (`Kept.mem_of_child`) and, when nothing is pending, that no two
edges lead to one node and none leads to the root (`Kept.nodup_edges`).

## How often a node is taken off

Visits are as many as visited nodes, which are distinct and known.  A survey thus ends after one
visit for every known node at most, or at the node that it takes off next (`Ends.pops_le`).
-/

namespace ItemScoring

namespace SplitTable

/-- The children of a node, left first; none if the node is a leaf or stands for nothing. -/
def childrenOf (table : SplitTable) (node : NodeId) : List NodeId :=
  match table.resolve node with
  | .ok meaning => Survey.children meaning
  | .error _ => []

/-- An edge of the table leads from the first node to the second one. -/
def IsChild (table : SplitTable) (parent child : NodeId) : Prop := child ∈ table.childrenOf parent

/-- Edges lead from the root to the node. -/
def LeadsTo (table : SplitTable) (node : NodeId) : Prop :=
  Relation.ReflTransGen table.IsChild rootId node

theorem childrenOf_of_resolve {table : SplitTable} {node : NodeId} {meaning : Node}
    (h : table.resolve node = .ok meaning) : table.childrenOf node = Survey.children meaning := by
  rw [childrenOf, h]

end SplitTable

namespace Survey

open SplitTable

/-- After so many visits the survey from the root has come to this state. -/
inductive After (table : SplitTable) : Nat → Survey → Prop
  | initial : After table 0 start
  | visit {visits : Nat} {survey next : Survey} (before : After table visits survey)
      (pending_ne : survey.pending ≠ []) (step_eq : survey.step table = .ok next) :
      After table (visits + 1) next

/-- The survey from the root ends, with this outcome, when it has taken so many nodes off. -/
inductive Ends (table : SplitTable) : Nat → Except TreeError Survey → Prop
  | done {visits : Nat} {last : Survey} (after : After table visits last)
      (pending_eq : last.pending = []) : Ends table visits (.ok last)
  | stopped {visits : Nat} {survey : Survey} {e : TreeError} (after : After table visits survey)
      (step_eq : survey.step table = .error e) : Ends table (visits + 1) (.error e)

variable {table : SplitTable} {survey last : Survey} {visits : Nat}

/-! ### What is kept -/

/-- What holds of a survey from the root between two visits. -/
structure Kept (table : SplitTable) (survey : Survey) : Prop where
  distinct : survey.met.Nodup
  stands : ∀ node ∈ survey.met, ∃ meaning, table.resolve node = .ok meaning
  reached : ∀ node ∈ survey.pending ++ survey.met, table.LeadsTo node
  edges : (survey.pending ++ survey.met).Perm (rootId :: survey.met.flatMap table.childrenOf)
  kind?_iff : ∀ node kind, survey.kind? node = some kind ↔
    node ∈ survey.met ∧ ∃ meaning, table.resolve node = .ok meaning ∧ meaning.kind = kind

theorem kept_start : Kept table start where
  distinct := List.nodup_nil
  stands := by simp [start]
  reached := by
    intro node hnode
    obtain rfl : node = rootId := by simpa [start] using hnode
    exact .refl
  edges := List.Perm.refl _
  kind?_iff := by simp [start, kind?]

namespace Kept

section Visit

variable {met rest : List NodeId} {roles : NodeRoles} {node : NodeId} {meaning : Node}

/-- The node moves from the pending nodes to the visited ones, and its children are added to what is
pending as well as to the children of visited nodes. -/
theorem edges_visit (h : Kept table ⟨met, roles, node :: rest⟩)
    (hmeaning : table.resolve node = .ok meaning) :
    ((children meaning ++ rest) ++ node :: met).Perm
      (rootId :: (node :: met).flatMap table.childrenOf) :=
  calc
    _ = children meaning ++ (rest ++ node :: met) := List.append_assoc _ _ _
    _ |>.Perm (children meaning ++ (node :: rest ++ met)) :=
      List.Perm.append_left _ List.perm_middle
    _ |>.Perm (children meaning ++ rootId :: met.flatMap table.childrenOf) :=
      List.Perm.append_left _ h.edges
    _ |>.Perm (rootId :: (children meaning ++ met.flatMap table.childrenOf)) := List.perm_middle
    _ = rootId :: (node :: met).flatMap table.childrenOf := by
      rw [List.flatMap_cons, childrenOf_of_resolve hmeaning]

/-- The children of a visited node are reached through it. -/
theorem reached_visit (h : Kept table ⟨met, roles, node :: rest⟩)
    (hmeaning : table.resolve node = .ok meaning) :
    ∀ other ∈ (children meaning ++ rest) ++ node :: met, table.LeadsTo other := by
  have hnode : table.LeadsTo node := h.reached node (by simp)
  intro other hother
  simp only [List.mem_append, List.mem_cons] at hother
  rcases hother with (hchild | hrest) | rfl | hmet
  · refine hnode.tail ?_
    rwa [IsChild, childrenOf_of_resolve hmeaning]
  · exact h.reached other (by simp [hrest])
  · exact hnode
  · exact h.reached other (by simp [hmet])

/-- The role of a visited node is noted, and the other roles stay. -/
theorem kind?_visit (h : Kept table ⟨met, roles, node :: rest⟩)
    (hmeaning : table.resolve node = .ok meaning) (other : NodeId) (kind : NodeKind) :
    ((node, meaning.kind) :: roles).lookup other = some kind ↔ other ∈ node :: met ∧
      ∃ found, table.resolve other = .ok found ∧ found.kind = kind := by
  by_cases hother : other = node
  · subst hother
    simp [hmeaning]
  · have hkept : roles.lookup other = some kind ↔ other ∈ met ∧
        ∃ found, table.resolve other = .ok found ∧ found.kind = kind := h.kind?_iff other kind
    rw [List.lookup_cons, beq_eq_false_iff_ne.mpr hother]
    simp [hother, hkept]

/-- A visit of a new node that stands for something keeps what holds. -/
theorem visit (h : Kept table ⟨met, roles, node :: rest⟩) (hfresh : node ∉ met)
    (hmeaning : table.resolve node = .ok meaning) :
    Kept table ⟨node :: met, (node, meaning.kind) :: roles, children meaning ++ rest⟩ where
  distinct := List.nodup_cons.mpr ⟨hfresh, h.distinct⟩
  stands := List.forall_mem_cons.mpr ⟨⟨meaning, hmeaning⟩, h.stands⟩
  reached := h.reached_visit hmeaning
  edges := h.edges_visit hmeaning
  kind?_iff := h.kind?_visit hmeaning

end Visit

variable (h : Kept table survey)
include h

/-- A child of a visited node is pending or visited. -/
theorem mem_of_child {parent child : NodeId} (hparent : parent ∈ survey.met)
    (hchild : table.IsChild parent child) : child ∈ survey.pending ∨ child ∈ survey.met := by
  have hmem : child ∈ rootId :: survey.met.flatMap table.childrenOf :=
    List.mem_cons_of_mem _ (List.mem_flatMap.mpr ⟨parent, hparent, hchild⟩)
  exact List.mem_append.mp (h.edges.mem_iff.mpr hmem)

theorem mem_known {node : NodeId} (hnode : node ∈ survey.met) : node ∈ table.known := by
  obtain ⟨meaning, hmeaning⟩ := h.stands node hnode
  exact mem_known_of_resolve hmeaning

/-- No more nodes have been visited than are known. -/
theorem length_met_le : survey.met.length ≤ table.known.length :=
  (List.subperm_of_subset h.distinct fun _ hnode => h.mem_known hnode).length_le

/-- When nothing is pending, exactly what can be reached has been visited. -/
theorem mem_met_iff (hpending : survey.pending = []) {node : NodeId} :
    node ∈ survey.met ↔ table.LeadsTo node := by
  constructor
  · intro hnode
    exact h.reached node (List.mem_append_right _ hnode)
  · intro hled
    -- Along the edges to the node; there is nothing pending that could hold one of their ends.
    induction hled with
    | refl =>
        have hroot : rootId ∈ survey.pending ++ survey.met :=
          h.edges.mem_iff.mpr List.mem_cons_self
        simpa [hpending] using hroot
    | tail _ hchild ih => simpa [hpending] using h.mem_of_child ih hchild

/-- When nothing is pending, the edges from visited nodes lead to different nodes, and none of them
leads to the root. -/
theorem nodup_edges (hpending : survey.pending = []) :
    (rootId :: survey.met.flatMap table.childrenOf).Nodup := by
  have hedges := h.edges
  rw [hpending, List.nil_append] at hedges
  exact hedges.nodup_iff.mp h.distinct

theorem not_isChild_root (hpending : survey.pending = []) {parent : NodeId}
    (hparent : parent ∈ survey.met) : ¬ table.IsChild parent rootId := by
  intro hchild
  have hroot := (List.nodup_cons.mp (h.nodup_edges hpending)).1
  exact hroot (List.mem_flatMap.mpr ⟨parent, hparent, hchild⟩)

/-- Every visited node but the root is the child of a visited node. -/
theorem exists_parent {node : NodeId} (hnode : node ∈ survey.met) (hroot : node ≠ rootId) :
    ∃ parent ∈ survey.met, table.IsChild parent node := by
  have hmem := h.edges.mem_iff.mp (List.mem_append_right _ hnode)
  exact List.mem_flatMap.mp ((List.mem_cons.mp hmem).resolve_left hroot)

/-- When nothing is pending, no node is the child of two visited nodes. -/
theorem parent_unique (hpending : survey.pending = []) {first second child : NodeId}
    (hfirst : first ∈ survey.met) (hsecond : second ∈ survey.met)
    (hchild : table.IsChild first child) (hchild' : table.IsChild second child) :
    first = second := by
  by_contra hne
  have hdisjoint := (List.nodup_flatMap.mp (List.nodup_cons.mp (h.nodup_edges hpending)).2).2
  have : Std.Symm (Function.onFun List.Disjoint table.childrenOf) :=
    ⟨fun _ _ hapart => List.Disjoint.symm hapart⟩
  exact hdisjoint.forall hfirst hsecond hne hchild hchild'

/-- When nothing is pending, no visited node has the same child twice. -/
theorem nodup_childrenOf (hpending : survey.pending = []) {parent : NodeId}
    (hparent : parent ∈ survey.met) : (table.childrenOf parent).Nodup :=
  (List.nodup_flatMap.mp (List.nodup_cons.mp (h.nodup_edges hpending)).2).1 parent hparent

end Kept

/-! ### Visit after visit -/

/-- A visit takes the first of the pending nodes, which is new and stands for something. -/
theorem exists_visited (hpending : survey.pending ≠ []) {next : Survey}
    (hstep : survey.step table = .ok next) : ∃ node rest meaning,
      survey = ⟨survey.met, survey.roles, node :: rest⟩ ∧ node ∉ survey.met ∧
      table.resolve node = .ok meaning ∧
      next = ⟨node :: survey.met, (node, meaning.kind) :: survey.roles,
        children meaning ++ rest⟩ := by
  obtain ⟨met, roles, pending⟩ := survey
  obtain ⟨node, rest, rfl⟩ := List.exists_cons_of_ne_nil hpending
  obtain ⟨hfresh, meaning, hmeaning, hnext⟩ := step_eq_ok_iff.mp hstep
  exact ⟨node, rest, meaning, rfl, hfresh, hmeaning, hnext⟩

/-- What is kept holds after every visit. -/
theorem After.kept (h : After table visits survey) : Kept table survey := by
  induction h with
  | initial => exact kept_start
  | visit before pending_ne step_eq ih =>
      obtain ⟨node, rest, meaning, hsurvey, hfresh, hmeaning, rfl⟩ :=
        exists_visited pending_ne step_eq
      rw [hsurvey] at ih
      exact ih.visit hfresh hmeaning

/-- Every visit adds one node. -/
theorem After.length_met (h : After table visits survey) : survey.met.length = visits := by
  induction h with
  | initial => rfl
  | visit before pending_ne step_eq ih =>
      obtain ⟨node, rest, meaning, -, -, -, rfl⟩ := exists_visited pending_ne step_eq
      rw [List.length_cons, ih]

/-- There are no more visits than known nodes. -/
theorem After.visits_le (h : After table visits survey) : visits ≤ table.known.length := by
  have hle := h.kept.length_met_le
  rwa [h.length_met] at hle

/-- The survey from the root comes to what it would come to from here. -/
theorem After.run_eq (h : After table visits survey) :
    start.run table = survey.run table := by
  induction h with
  | initial => rfl
  | visit before pending_ne step_eq ih =>
      obtain ⟨node, rest, -, hsurvey, -⟩ := exists_visited pending_ne step_eq
      rw [hsurvey] at step_eq
      rw [ih, hsurvey, run_cons step_eq]

/-! ### The end -/

/-- A survey that cannot visit its next node comes to the error of that step. -/
theorem run_of_step_eq_error {e : TreeError} (hstep : survey.step table = .error e) :
    survey.run table = .error e := by
  have hpending : survey.pending ≠ [] := by
    intro hnil
    simp [step, hnil] at hstep
  rw [run, dif_neg hpending]
  split <;> simp_all

/-- From wherever it has come to, the survey comes to an end. -/
theorem After.exists_ends (h : After table visits survey) :
    ∃ pops, Ends table pops (survey.run table) := by
  -- Along the steps of the survey, with one more visit after each of them.
  fun_induction run table survey generalizing visits with
  | case1 survey hpending => exact ⟨visits, .done h hpending⟩
  | case2 survey hpending e hstep => exact ⟨visits + 1, .stopped h hstep⟩
  | case3 survey hpending next hstep ih => exact ih (.visit h hpending hstep)

theorem exists_ends (table : SplitTable) : ∃ pops, Ends table pops (start.run table) :=
  After.initial.exists_ends

variable {pops : Nat} {outcome : Except TreeError Survey}

/-- The survey ends with what it comes to. -/
theorem Ends.run_eq (h : Ends table pops outcome) : start.run table = outcome := by
  cases h with
  | done after pending_eq => rw [after.run_eq, run, dif_pos pending_eq]
  | stopped after step_eq => rw [after.run_eq, run_of_step_eq_error step_eq]

/-- A survey takes off one node more than are known, at most. -/
theorem Ends.pops_le (h : Ends table pops outcome) : pops ≤ table.known.length + 1 := by
  cases h with
  | done after => exact Nat.le_succ_of_le after.visits_le
  | stopped after => exact Nat.succ_le_succ after.visits_le

end Survey

end ItemScoring
