import Mathlib.Data.List.Basic
import Mathlib.Data.List.Nodup
import ItemScoring.Proofs.Tree.Defects
import ItemScoring.Proofs.Tree.Surveying

/-!
# The order of a survey

A survey keeps its pending nodes in a list, and no record of how it came to them.  This file
names every visited and every pending node by the turns that lead to it, and so compares the
list with the walk that visits a node before its children and the left child before the right
one.

The invariant is `Survey.Progress`.  Everything visited comes before everything pending; the
pending nodes stand from left to right, none of them above another; and every occurrence of a node
is visited, or is at or below a pending node.  Visiting the next node keeps it so
(`Progress.visit`): the children of a split lie side by side below the node, and nothing occurs
below a leaf.

A survey that stops therefore has visited everything that comes before the node it stops at.  That
node is the first obstacle, one that was met already or that stands for nothing
(`run_eq_error_iff`); and a survey that comes to its end has met what occurs at all, and nothing
else (`mem_met_iff`).
-/

namespace ItemScoring

/-! ### Turns side by side -/

namespace Turn

/-- The turns part, the first ones to the left and the second ones to the right. -/
inductive LeftOf : List Turn → List Turn → Prop
  | part {low high : Turn} {first second : List Turn} (low_side : low.side = .atMost)
      (high_side : high.side = .above) : LeftOf (low :: first) (high :: second)
  | cons {turn : Turn} {first second : List Turn} (rest : LeftOf first second) :
      LeftOf (turn :: first) (turn :: second)

variable {first second : List Turn}

/-- Turns that have parted stay apart. -/
theorem LeftOf.append (h : LeftOf first second) (more others : List Turn) :
    LeftOf (first ++ more) (second ++ others) := by
  induction h with
  | part low_side high_side => exact .part low_side high_side
  | cons rest ih => exact .cons ih

theorem LeftOf.earlier (h : LeftOf first second) : Earlier first second := by
  induction h with
  | part low_side high_side => exact .rel ⟨low_side, high_side⟩
  | cons rest ih => exact .cons ih

theorem LeftOf.not_earlier (h : LeftOf first second) : ¬ Earlier second first := by
  induction h with
  | part low_side high_side =>
      intro hearlier
      cases hearlier with
      | cons => exact absurd (low_side.symm.trans high_side) (by decide)
      | rel hsides => exact absurd (low_side.symm.trans hsides.2) (by decide)
  | cons rest ih => exact fun hearlier => ih (earlier_cons_iff.mp hearlier)

/-- Two turns at one row lie side by side. -/
theorem leftOf_turns (turns : List Turn) (row : Split) :
    LeftOf (turns ++ [row.turn .atMost]) (turns ++ [row.turn .above]) := by
  induction turns with
  | nil => exact .part rfl rfl
  | cons turn rest ih => exact .cons ih

/-! ### Turns on the way -/

/-- What is on the way comes first. -/
theorem earlier_append (turns : List Turn) (turn : Turn) (rest : List Turn) :
    Earlier turns (turns ++ turn :: rest) := by
  induction turns with
  | nil => exact .nil
  | cons first more ih => exact .cons ih

theorem not_earlier_below (h : first <+: second) : ¬ Earlier second first := by
  obtain ⟨more, rfl⟩ := h
  induction first with
  | nil => intro hearlier; cases hearlier
  | cons turn rest ih => exact fun hearlier => ih (earlier_cons_iff.mp hearlier)

theorem Earlier.irrefl (turns : List Turn) : ¬ Earlier turns turns :=
  not_earlier_below (List.prefix_refl turns)

/-- What comes before some turns comes before all below their end. -/
theorem Earlier.append (h : Earlier first second) (more : List Turn) :
    Earlier first (second ++ more) := by
  induction h with
  | nil => exact .nil
  | cons rest ih => exact .cons ih
  | rel hsides => exact .rel hsides

/-- Turns come before others by lying on the way to them or to the left of them. -/
theorem Earlier.above_or_leftOf (h : Earlier first second) :
    first <+: second ∨ LeftOf first second := by
  induction h with
  | nil => exact Or.inl ⟨_, rfl⟩
  | cons rest ih =>
      apply ih.imp
      · exact fun hway => List.cons_prefix_cons.mpr ⟨rfl, hway⟩
      · exact .cons
  | rel hsides => exact Or.inr (.part hsides.1 hsides.2)

theorem Earlier.not_earlier (h : Earlier first second) : ¬ Earlier second first := by
  rcases h.above_or_leftOf with hway | hleft
  · exact not_earlier_below hway
  · exact hleft.not_earlier

end Turn

/-! ### Occurrences by name -/

/-- An occurrence of a node, named by the turns that lead to it. -/
structure Occurrence where
  turns : List Turn
  node : NodeId

namespace SplitTable

/-- The turns lead from the root to the node. -/
def Occurs (table : SplitTable) (o : Occurrence) : Prop := table.Leads rootId o.turns o.node

variable {table : SplitTable} {node middle last : NodeId} {turns others : List Turn}

theorem Leads.append (h : table.Leads node turns middle) (h' : table.Leads middle others last) :
    table.Leads node (turns ++ others) last := by
  induction h with
  | here => exact h'
  | down side row_eq child_eq rest ih => exact .down side row_eq child_eq (ih h')

/-- A way is made of a way to the middle and one from there. -/
theorem leads_append_iff : table.Leads node (turns ++ others) last ↔
    ∃ middle, table.Leads node turns middle ∧ table.Leads middle others last := by
  constructor
  · intro h
    induction turns generalizing node with
    | nil => exact ⟨node, .here, h⟩
    | cons turn rest ih =>
        cases h with
        | down side row_eq child_eq hrest =>
            obtain ⟨middle, hmiddle, hothers⟩ := ih hrest
            exact ⟨middle, .down side row_eq child_eq hmiddle, hothers⟩
  · intro ⟨middle, hturns, hothers⟩
    exact hturns.append hothers

/-- The turns lead to one node only. -/
theorem Leads.unique (h : table.Leads node turns middle) (h' : table.Leads node turns last) :
    middle = last := by
  rcases h.earlier_or_eq h' with hlt | hgt | ⟨-, heq⟩
  · exact absurd hlt (Turn.Earlier.irrefl _)
  · exact absurd hgt (Turn.Earlier.irrefl _)
  · exact heq

/-- Every node on the way is an occurrence that comes before the end, and has a row. -/
theorem Leads.exists_ancestor (h : table.Leads node turns last) {above : NodeId}
    (habove : above ∈ turns.map Turn.node) : ∃ before, table.Leads node before above ∧
      Turn.Earlier before turns ∧ ∃ row, table.row? above = some row := by
  induction h with
  | here => simp at habove
  | @down node child last row turns side row_eq child_eq rest ih =>
      rcases List.mem_cons.mp habove with rfl | hmem
      · -- The turn at a row is at the node that has this row.
        have hnode : (row.turn side).node = node := number_of_row? row_eq
        rw [hnode]
        exact ⟨[], .here, .nil, row, row_eq⟩
      · obtain ⟨before, hbefore, hearlier, hrow⟩ := ih hmem
        exact ⟨_, .down side row_eq child_eq hbefore, .cons hearlier, hrow⟩

/-! ### Obstacles -/

/-- What stops a survey at an occurrence: the node was met already, or it stands for nothing. -/
inductive Obstacle (table : SplitTable) (o : Occurrence) : TreeError → Prop
  | again {earlier : Occurrence} (occurs : table.Occurs earlier) (node_eq : earlier.node = o.node)
      (before : Turn.Earlier earlier.turns o.turns) : Obstacle table o (.cycleDetected o.node)
  | fault {e : TreeError} (faulty : table.Faulty o.node e) : Obstacle table o e

/-- Nothing stops a survey at the occurrence. -/
def Clear (table : SplitTable) (o : Occurrence) : Prop := ∀ e, ¬ table.Obstacle o e

/-- The error names the obstacle of an occurrence before which all are clear. -/
def FirstObstacle (table : SplitTable) (e : TreeError) : Prop :=
  ∃ o, table.Occurs o ∧ table.Obstacle o e ∧
    ∀ other, table.Occurs other → Turn.Earlier other.turns o.turns → table.Clear other

variable {e e' : TreeError}

theorem Faulty.unique (h : table.Faulty node e) (h' : table.Faulty node e') : e = e' := by
  rw [← resolve_eq_error_iff] at h h'
  exact Except.error.inj (h.symm.trans h')

/-- A clear occurrence stands for something, and no earlier one has its node. -/
theorem clear_iff {o : Occurrence} : table.Clear o ↔ table.Stands o.node ∧
    ∀ other, table.Occurs other → Turn.Earlier other.turns o.turns → other.node ≠ o.node := by
  constructor
  · intro hclear
    constructor
    · cases hresolved : table.resolve o.node with
      | ok meaning => exact stands_iff.mpr ⟨meaning, hresolved⟩
      | error e => exact absurd (.fault (resolve_eq_error_iff.mp hresolved)) (hclear e)
    · intro other hother hearlier heq
      exact hclear _ (.again hother heq hearlier)
  · rintro ⟨hstands, hnew⟩ e (⟨hother, heq, hearlier⟩ | ⟨hfaulty⟩)
    · exact hnew _ hother hearlier heq
    · obtain ⟨meaning, hresolved⟩ := stands_iff.mp hstands
      rw [resolve_eq_error_iff.mpr hfaulty] at hresolved
      contradiction

/-- There is at most one first obstacle. -/
theorem FirstObstacle.unique (h : table.FirstObstacle e) (h' : table.FirstObstacle e') :
    e = e' := by
  obtain ⟨⟨turns, node⟩, hoccurs, hobstacle, hclear⟩ := h
  obtain ⟨⟨turns', node'⟩, hoccurs', hobstacle', hclear'⟩ := h'
  rcases Leads.earlier_or_eq hoccurs hoccurs' with hlt | hgt | ⟨heq, heq'⟩
  · exact absurd hobstacle (hclear' _ hoccurs hlt e)
  · exact absurd hobstacle' (hclear _ hoccurs' hgt e')
  · simp only at heq heq'
    subst heq heq'
    cases hobstacle with
    | again hearlier node_eq before =>
        cases hobstacle' with
        | again => rfl
        | fault faulty =>
            -- The earlier occurrence has the same fault, and would come first.
            have hfaulty := node_eq ▸ faulty
            exact absurd (.fault hfaulty) (hclear _ hearlier before e')
    | fault faulty =>
        cases hobstacle' with
        | again hearlier node_eq before =>
            have hfaulty := node_eq ▸ faulty
            exact absurd (.fault hfaulty) (hclear _ hearlier before e)
        | fault faulty' => exact faulty.unique faulty'

end SplitTable

/-! ### Progress -/

namespace Survey

open SplitTable

/-- The visited occurrences, latest first, and the pending ones are those of a survey that has come
upon no obstacle. -/
structure Progress (table : SplitTable) (visited pending : List Occurrence) : Prop where
  occurs : ∀ o ∈ visited ++ pending, table.Occurs o
  distinct : (visited.map Occurrence.node).Nodup
  stands : ∀ o ∈ visited, table.Stands o.node
  before : ∀ o ∈ visited, ∀ next ∈ pending, Turn.Earlier o.turns next.turns
  apart : pending.Pairwise fun first second => Turn.LeftOf first.turns second.turns
  covered : ∀ o, table.Occurs o → o ∈ visited ∨ ∃ next ∈ pending, next.turns <+: o.turns

variable {table : SplitTable} {visited pending : List Occurrence} {next : Occurrence}

theorem progress_start : Progress table [] [⟨[], rootId⟩] where
  occurs := by
    intro o ho
    obtain rfl := List.mem_singleton.mp ho
    exact .here
  distinct := List.nodup_nil
  stands := by simp
  before := by simp
  apart := List.pairwise_singleton _ _
  covered := fun _ _ => Or.inr ⟨_, List.mem_singleton_self _, ⟨_, rfl⟩⟩

namespace Progress

/-- What comes before the next pending occurrence has been visited. -/
theorem mem_of_earlier (h : Progress table visited (next :: pending)) {o : Occurrence}
    (ho : table.Occurs o) (hearlier : Turn.Earlier o.turns next.turns) : o ∈ visited := by
  rcases h.covered o ho with hmem | ⟨other, hother, hway⟩
  · exact hmem
  · exfalso
    rcases List.mem_cons.mp hother with rfl | hmem
    · exact Turn.not_earlier_below hway hearlier
    · have hleft := List.rel_of_pairwise_cons h.apart hmem
      obtain ⟨more, hmore⟩ := hway
      have hpart := hleft.append [] more
      rw [List.append_nil, hmore] at hpart
      exact hpart.not_earlier hearlier

/-- What comes before a visited occurrence has been visited. -/
theorem mem_of_earlier_visited (h : Progress table visited pending) {o other : Occurrence}
    (hother : other ∈ visited) (ho : table.Occurs o)
    (hearlier : Turn.Earlier o.turns other.turns) : o ∈ visited := by
  rcases h.covered o ho with hmem | ⟨next, hnext, more, hmore⟩
  · exact hmem
  · have hlater := (h.before other hother next hnext).append more
    rw [hmore] at hlater
    exact absurd hearlier hlater.not_earlier

/-- No visited occurrence is an obstacle. -/
theorem clear (h : Progress table visited pending) {o : Occurrence} (ho : o ∈ visited) :
    table.Clear o := by
  apply clear_iff.mpr
  refine ⟨h.stands o ho, fun other hother hearlier heq => ?_⟩
  have hmem := h.mem_of_earlier_visited ho hother hearlier
  have hsame := List.inj_on_of_nodup_map h.distinct hmem ho heq
  exact Turn.Earlier.irrefl _ (hsame ▸ hearlier)

/-- If the next pending occurrence is an obstacle, it is the first one. -/
theorem firstObstacle (h : Progress table visited (next :: pending)) {e : TreeError}
    (hobstacle : table.Obstacle next e) : table.FirstObstacle e := by
  refine ⟨next, h.occurs next (by simp), hobstacle, fun other hother hearlier => ?_⟩
  exact h.clear (h.mem_of_earlier hother hearlier)

/-- A node that was met is an obstacle. -/
theorem obstacle_of_met (h : Progress table visited (next :: pending))
    (hmet : next.node ∈ visited.map Occurrence.node) :
    table.Obstacle next (.cycleDetected next.node) := by
  obtain ⟨o, ho, hnode⟩ := List.mem_map.mp hmet
  exact .again (h.occurs o (by simp [ho])) hnode (h.before o ho next (by simp))

/-- Visiting the next node keeps the order, if its children lie side by side below it and there
is nothing else below it. -/
theorem visit (h : Progress table visited (next :: pending)) (children : List Occurrence)
    (hfresh : next.node ∉ visited.map Occurrence.node) (hstands : table.Stands next.node)
    (hoccurs : ∀ child ∈ children, table.Occurs child)
    (hbelow : ∀ child ∈ children, ∃ turn, child.turns = next.turns ++ [turn])
    (hapart : children.Pairwise fun first second => Turn.LeftOf first.turns second.turns)
    (hcovered : ∀ o, table.Occurs o → next.turns <+: o.turns →
      o = next ∨ ∃ child ∈ children, child.turns <+: o.turns) :
    Progress table (next :: visited) (children ++ pending) where
  occurs := by
    intro o ho
    simp only [List.cons_append, List.mem_cons, List.mem_append] at ho
    rcases ho with rfl | ho | ho | ho
    · exact h.occurs o (by simp)
    · exact h.occurs o (by simp [ho])
    · exact hoccurs o ho
    · exact h.occurs o (by simp [ho])
  distinct := List.nodup_cons.mpr ⟨hfresh, h.distinct⟩
  stands := List.forall_mem_cons.mpr ⟨hstands, h.stands⟩
  before := by
    intro o ho other hother
    rcases List.mem_append.mp hother with hchild | hpending
    · obtain ⟨turn, hturns⟩ := hbelow other hchild
      rw [hturns]
      rcases List.mem_cons.mp ho with rfl | hvisited
      · exact Turn.earlier_append _ _ _
      · exact (h.before o hvisited next List.mem_cons_self).append _
    · rcases List.mem_cons.mp ho with rfl | hvisited
      · exact (List.rel_of_pairwise_cons h.apart hpending).earlier
      · exact h.before o hvisited other (List.mem_cons_of_mem _ hpending)
  apart := by
    refine List.pairwise_append.mpr ⟨hapart, h.apart.of_cons, fun child hchild other hother => ?_⟩
    obtain ⟨turn, hturns⟩ := hbelow child hchild
    have hleft := (List.rel_of_pairwise_cons h.apart hother).append [turn] []
    rwa [← hturns, List.append_nil] at hleft
  covered := by
    intro o ho
    rcases h.covered o ho with hvisited | ⟨other, hother, hway⟩
    · exact Or.inl (List.mem_cons_of_mem _ hvisited)
    rcases List.mem_cons.mp hother with rfl | hpending
    · rcases hcovered o ho hway with rfl | ⟨child, hchild, hbelow⟩
      · exact Or.inl List.mem_cons_self
      · exact Or.inr ⟨child, List.mem_append_left _ hchild, hbelow⟩
    · exact Or.inr ⟨other, List.mem_append_right _ hpending, hway⟩

/-- Nothing occurs below a leaf. -/
theorem visit_leaf (h : Progress table visited (next :: pending))
    (hfresh : next.node ∉ visited.map Occurrence.node) {coefficient : Float}
    (hleaf : table.IsLeaf next.node coefficient) : Progress table (next :: visited) pending := by
  refine h.visit [] hfresh (.leaf hleaf) (by simp) (by simp) .nil fun o ho hbelow => ?_
  obtain ⟨more, hmore⟩ := hbelow
  rw [Occurs, ← hmore] at ho
  obtain ⟨middle, hmiddle, hrest⟩ := leads_append_iff.mp ho
  obtain rfl := hmiddle.unique (h.occurs next (by simp))
  obtain ⟨rfl, hnode⟩ := (leads_of_row?_eq_none hleaf.row?_eq_none).mp hrest
  rw [List.append_nil] at hmore
  exact Or.inl (by cases o; cases next; simp_all)

/-- Below a split occur its left child and its right child, and what is below them. -/
theorem visit_split (h : Progress table visited (next :: pending))
    (hfresh : next.node ∉ visited.map Occurrence.node) {row : Split} {low high : NodeId}
    (hrow : table.row? next.node = some row) (hlow : row.left = some low)
    (hhigh : row.right = some high) :
    Progress table (next :: visited) (⟨next.turns ++ [row.turn .atMost], low⟩ ::
      ⟨next.turns ++ [row.turn .above], high⟩ :: pending) := by
  have hnext : table.Occurs next := h.occurs next (by simp)
  refine h.visit [⟨next.turns ++ [row.turn .atMost], low⟩, ⟨next.turns ++ [row.turn .above], high⟩]
    hfresh (.split hrow (by simp [hlow]) (by simp [hhigh])) ?_ ?_ ?_ fun o ho hbelow => ?_
  · intro child hchild
    rcases List.mem_pair.mp hchild with rfl | rfl
    · exact Leads.append hnext (.down .atMost hrow hlow .here)
    · exact Leads.append hnext (.down .above hrow hhigh .here)
  · intro child hchild
    rcases List.mem_pair.mp hchild with rfl | rfl
    · exact ⟨_, rfl⟩
    · exact ⟨_, rfl⟩
  · exact List.pairwise_pair.mpr (Turn.leftOf_turns next.turns row)
  · -- What lies below the node is the node itself, or below one of the two children.
    obtain ⟨more, hmore⟩ := hbelow
    rw [Occurs, ← hmore] at ho
    obtain ⟨middle, hmiddle, hrest⟩ := leads_append_iff.mp ho
    obtain rfl := hmiddle.unique hnext
    rcases (leads_of_children hrow hlow hhigh).mp hrest with
      ⟨rfl, hnode⟩ | ⟨rest, rfl, -⟩ | ⟨rest, rfl, -⟩
    · rw [List.append_nil] at hmore
      exact Or.inl (by cases o; cases next; simp_all)
    · exact Or.inr ⟨_, List.mem_cons_self, ⟨rest, by simp [← hmore]⟩⟩
    · exact Or.inr ⟨_, List.mem_cons_of_mem _ (List.mem_singleton_self _),
        ⟨rest, by simp [← hmore]⟩⟩

end Progress

/-! ### Runs -/

/-- A survey that is in order comes to its end in order, or stops at the first obstacle. -/
theorem run_outcome (h : Progress table visited pending) (roles : NodeRoles) :
    match run table ⟨visited.map Occurrence.node, roles, pending.map Occurrence.node⟩ with
    | .ok last => ∃ all, Progress table all [] ∧ last.met = all.map Occurrence.node
    | .error e => table.FirstObstacle e := by
  -- Along the steps of the survey; each of them visits the first of the pending occurrences.
  generalize hsurvey :
    (⟨visited.map Occurrence.node, roles, pending.map Occurrence.node⟩ : Survey) = survey
  fun_induction run table survey generalizing visited pending roles with
  | case1 survey hpending =>
      subst hsurvey
      obtain rfl : pending = [] := List.map_eq_nil_iff.mp hpending
      exact ⟨visited, h, rfl⟩
  | case2 survey hpending defect hstep =>
      subst hsurvey
      cases pending with
      | nil => exact absurd rfl hpending
      | cons next pending =>
          apply h.firstObstacle
          by_cases hmet : next.node ∈ visited.map Occurrence.node
          · simp only [step, List.map_cons, if_pos hmet, Except.error.injEq] at hstep
            subst hstep
            exact h.obstacle_of_met hmet
          · simp only [step, List.map_cons, if_neg hmet] at hstep
            cases hresolved : table.resolve next.node with
            | ok meaning => simp [hresolved] at hstep
            | error e =>
                simp only [hresolved, Except.error.injEq] at hstep
                subst hstep
                exact .fault (resolve_eq_error_iff.mp hresolved)
  | case3 survey hpending following hstep ih =>
      subst hsurvey
      cases pending with
      | nil => exact absurd rfl hpending
      | cons next pending =>
          obtain ⟨hfresh, meaning, hresolved, rfl⟩ := step_eq_ok_iff.mp hstep
          cases meaning with
          | leaf coefficient =>
              exact ih (h.visit_leaf hfresh (resolve_eq_leaf_iff.mp hresolved)) _ rfl
          | split column threshold low high =>
              obtain ⟨row, hrow, hlow, hhigh, -, -⟩ := resolve_eq_split_iff.mp hresolved
              exact ih (h.visit_split hfresh hrow hlow hhigh) _ rfl

/-- At the end of a survey nothing was an obstacle. -/
theorem Progress.not_firstObstacle {all : List Occurrence} (h : Progress table all [])
    (e : TreeError) : ¬ table.FirstObstacle e := by
  rintro ⟨o, ho, hobstacle, -⟩
  rcases h.covered o ho with hmem | ⟨next, hnext, -⟩
  · exact h.clear hmem e hobstacle
  · exact absurd hnext List.not_mem_nil

theorem start_run_outcome (table : SplitTable) :
    match start.run table with
    | .ok last => ∃ all, Progress table all [] ∧ last.met = all.map Occurrence.node
    | .error e => table.FirstObstacle e :=
  run_outcome progress_start []

/-- A survey from the root stops exactly at the first obstacle. -/
theorem run_eq_error_iff {e : TreeError} :
    start.run table = .error e ↔ table.FirstObstacle e := by
  have houtcome := start_run_outcome table
  cases hrun : start.run table with
  | ok last =>
      rw [hrun] at houtcome
      obtain ⟨all, hall, -⟩ := houtcome
      simp [hall.not_firstObstacle e]
  | error found =>
      rw [hrun] at houtcome
      rw [Except.error.injEq]
      constructor
      · intro heq
        exact heq ▸ houtcome
      · exact houtcome.unique

/-- A survey that comes to its end has met exactly what occurs. -/
theorem mem_met_iff {last : Survey} (hrun : start.run table = .ok last) {node : NodeId} :
    node ∈ last.met ↔ ∃ turns, table.Leads rootId turns node := by
  have houtcome := start_run_outcome table
  rw [hrun] at houtcome
  obtain ⟨all, hall, hmet⟩ := houtcome
  rw [hmet]
  constructor
  · intro hmem
    obtain ⟨o, ho, rfl⟩ := List.mem_map.mp hmem
    exact ⟨o.turns, hall.occurs o (by simp [ho])⟩
  · intro ⟨turns, hleads⟩
    rcases hall.covered ⟨turns, node⟩ hleads with hmem | ⟨next, hnext, -⟩
    · exact List.mem_map.mpr ⟨_, hmem, rfl⟩
    · exact absurd hnext List.not_mem_nil

end Survey

end ItemScoring
