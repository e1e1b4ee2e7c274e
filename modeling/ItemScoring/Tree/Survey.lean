import ItemScoring.Tree.Table

/-!
# Surveying a split table

A survey visits every node that can be reached from the root, depth first and
left before right, and insists on meeting each of them once: a table that passes
describes a tree without shared or repeated nodes.

The state of a survey is a worklist, `Survey`, together with the roles of the
nodes visited.  `Survey.step` treats one pending node.  `Survey.run` repeats the
step until nothing is pending; it ends because every step but the last meets a
known number for the first time.
-/

namespace ItemScoring

/-- The roles of nodes; of two roles of one node the first counts. -/
abbrev NodeRoles := List (NodeId × NodeKind)

/-- The progress of a survey. -/
structure Survey where
  /-- The nodes visited, latest first. -/
  met : List NodeId
  /-- The roles of the nodes visited. -/
  roles : NodeRoles
  /-- The nodes still to visit, next one first. -/
  pending : List NodeId
deriving Repr, DecidableEq

namespace Survey

/-- The survey that is about to visit the root. -/
def start : Survey where
  met := []
  roles := []
  pending := [rootId]

/-- The role of the node with this number, if it was visited. -/
def kind? (survey : Survey) (node : NodeId) : Option NodeKind := survey.roles.lookup node

/-- The children of a node, left first. -/
def children : Node → List NodeId
  | .leaf _ => []
  | .split _ _ left right => [left, right]

/-- Visits the next pending node, notes its role and puts its children in front of
the others; nothing changes if no node is pending. -/
def step (table : SplitTable) (survey : Survey) : Except TreeError Survey :=
  match survey.pending with
  | [] => .ok survey
  | node :: rest =>
    if node ∈ survey.met then .error (.cycleDetected node)
    else
      match table.resolve node with
      | .error defect => .error defect
      | .ok meaning =>
        .ok {
          met := node :: survey.met
          roles := (node, meaning.kind) :: survey.roles
          pending := children meaning ++ rest }

/-- A step that visits a node meets a known number for the first time. -/
theorem unmet_lt_of_step {table : SplitTable} {survey next : Survey}
    (hpending : survey.pending ≠ []) (hstep : survey.step table = .ok next) :
    unmet table.known next.met < unmet table.known survey.met := by
  unfold step at hstep
  split at hstep
  · contradiction
  · split at hstep
    · simp at hstep
    next hmet =>
      split at hstep
      · simp at hstep
      next hresolve =>
        simp only [Except.ok.injEq] at hstep
        subst hstep
        exact unmet_lt (SplitTable.mem_known_of_resolve hresolve) hmet

/-- Visits nodes until none is pending. -/
def run (table : SplitTable) (survey : Survey) : Except TreeError Survey :=
  if _pending : survey.pending = [] then .ok survey
  else
    match _step : survey.step table with
    | .error defect => .error defect
    | .ok next => run table next
termination_by unmet table.known survey.met
decreasing_by exact unmet_lt_of_step _pending _step

end Survey

end ItemScoring
