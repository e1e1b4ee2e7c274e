import Mathlib.Data.List.Nodup
import ItemScoring.Tree.Survey
import ItemScoring.Proofs.Tree.Following

/-!
# What a survey decides

A survey keeps a list of pending nodes.  Those nodes stand for a *forest*: trees
that follow the table, one per pending node, without a number that occurs twice or
was met before (`Covers`).  A step takes the root off the first tree, and leaves
its subtrees as trees of their own (`covers_leaf` and `covers_branch`).

So a survey succeeds exactly if there is such a forest, and it has then met every
node of it and noted its role; from the root, the forest is a single tree
(`start_run_eq_ok_iff`).
-/

namespace ItemScoring

/-- The nodes of a tree with their roles, each node before its subtrees and the left subtree before
the right one. -/
def SplitTree.roles : SplitTree → NodeRoles
  | leaf id coefficient => [(id, .leaf coefficient)]
  | branch id _ _ left right => (id, .internal left.id right.id) :: (left.roles ++ right.roles)

theorem SplitTree.map_fst_roles (tree : SplitTree) : tree.roles.map Prod.fst = tree.ids := by
  induction tree with
  | leaf id coefficient => rfl
  | branch id column threshold left right ihleft ihright =>
      rw [roles, ids, List.map_cons, List.map_append, ihleft, ihright]

namespace Survey

/-! ### Forests -/

/-- The trees are what the pending nodes stand for, and meet every number once. -/
structure Covers (table : SplitTable) (survey : Survey) (trees : List SplitTree) : Prop where
  follows : ∀ tree ∈ trees, tree.Follows table
  roots : trees.map SplitTree.id = survey.pending
  distinct : (trees.flatMap SplitTree.ids).Nodup
  fresh : ∀ node ∈ trees.flatMap SplitTree.ids, node ∉ survey.met

variable {table : SplitTable} {met rest : List NodeId} {roles : NodeRoles}
  {others : List SplitTree}

theorem covers_nil {trees : List SplitTree} : Covers table ⟨met, roles, []⟩ trees ↔ trees = [] := by
  constructor
  · intro h
    exact List.map_eq_nil_iff.mp h.roots
  · intro heq
    subst heq
    exact ⟨by simp, rfl, by simp, by simp⟩

/-- A leaf at the front is one node less to visit. -/
theorem covers_leaf {node : NodeId} {coefficient : Float} :
    Covers table ⟨met, roles, node :: rest⟩ (.leaf node coefficient :: others) ↔
      table.resolve node = .ok (.leaf coefficient) ∧ node ∉ met ∧
        Covers table ⟨node :: met, (node, .leaf coefficient) :: roles, rest⟩ others := by
  constructor
  · rintro ⟨hfollows, hroots, hdistinct, hfresh⟩
    simp only [List.forall_mem_cons, List.map_cons, List.flatMap_cons, SplitTree.ids,
      SplitTree.id, List.cons.injEq, List.singleton_append, List.nodup_cons] at *
    refine ⟨hfollows.1, hfresh.1, hfollows.2, hroots.2, hdistinct.2, fun other hother hmem => ?_⟩
    rcases List.mem_cons.mp hmem with rfl | hmet
    · exact hdistinct.1 hother
    · exact hfresh.2 other hother hmet
  · rintro ⟨hresolved, hnode, hfollows, hroots, hdistinct, hfresh⟩
    -- What is fresh after the visit is not the node that is visited.
    have hleft : ∀ other ∈ others.flatMap SplitTree.ids, other ≠ node ∧ other ∉ met :=
      fun other hother => not_or.mp fun h => hfresh other hother (List.mem_cons.mpr h)
    refine ⟨List.forall_mem_cons.mpr ⟨hresolved, hfollows⟩, ?_, ?_, ?_⟩
    · simpa [SplitTree.id] using hroots
    · simp only [List.flatMap_cons, SplitTree.ids, List.singleton_append, List.nodup_cons]
      exact ⟨fun hmem => (hleft node hmem).1 rfl, hdistinct⟩
    · simp only [List.flatMap_cons, SplitTree.ids, List.singleton_append, List.forall_mem_cons]
      exact ⟨hnode, fun other hother => (hleft other hother).2⟩

/-- A branch at the front is one node less to visit, and two trees instead of one. -/
theorem covers_branch {node : NodeId} {column : String} {threshold : Float}
    {left right : SplitTree} :
    Covers table ⟨met, roles, node :: rest⟩
        (.branch node column threshold left right :: others) ↔
      table.resolve node = .ok (.split column threshold left.id right.id) ∧ node ∉ met ∧
        Covers table ⟨node :: met, (node, .internal left.id right.id) :: roles,
          left.id :: right.id :: rest⟩ (left :: right :: others) := by
  -- Putting the two parts in place of the branch takes its root off the nodes to come.
  have hnodes : (SplitTree.branch node column threshold left right :: others).flatMap
      SplitTree.ids = node :: (left :: right :: others).flatMap SplitTree.ids := by
    simp [SplitTree.ids]
  constructor
  · rintro ⟨hfollows, hroots, hdistinct, hfresh⟩
    rw [hnodes] at hdistinct hfresh
    obtain ⟨⟨hresolved, hlow, hhigh⟩, hothers⟩ := List.forall_mem_cons.mp hfollows
    obtain ⟨hnew, hdistinct⟩ := List.nodup_cons.mp hdistinct
    obtain ⟨hnode, hfresh⟩ := List.forall_mem_cons.mp hfresh
    refine ⟨hresolved, hnode, by simp [hlow, hhigh]; exact hothers, ?_, hdistinct, ?_⟩
    · simpa [SplitTree.id] using hroots
    · intro other hother hmem
      rcases List.mem_cons.mp hmem with rfl | hmet
      · exact hnew hother
      · exact hfresh other hother hmet
  · rintro ⟨hresolved, hnode, hfollows, hroots, hdistinct, hfresh⟩
    have hleft : ∀ other ∈ (left :: right :: others).flatMap SplitTree.ids,
        other ≠ node ∧ other ∉ met :=
      fun other hother => not_or.mp fun h => hfresh other hother (List.mem_cons.mpr h)
    simp only [List.forall_mem_cons] at hfollows
    refine ⟨List.forall_mem_cons.mpr ⟨⟨hresolved, hfollows.1, hfollows.2.1⟩, hfollows.2.2⟩,
      ?_, ?_, ?_⟩
    · simpa [SplitTree.id] using hroots
    · rw [hnodes]
      exact List.nodup_cons.mpr ⟨fun hmem => (hleft node hmem).1 rfl, hdistinct⟩
    · rw [hnodes]
      exact List.forall_mem_cons.mpr ⟨hnode, fun other hother => (hleft other hother).2⟩

/-! ### Steps and runs -/

/-- A step visits a node that is new and stands for something, and notes its role. -/
theorem step_eq_ok_iff {node : NodeId} {next : Survey} :
    step table ⟨met, roles, node :: rest⟩ = .ok next ↔ node ∉ met ∧ ∃ meaning,
      table.resolve node = .ok meaning ∧
        next = ⟨node :: met, (node, meaning.kind) :: roles, children meaning ++ rest⟩ := by
  by_cases hmet : node ∈ met
  · simp [step, hmet]
  · cases hresolved : table.resolve node <;> simp [step, hmet, hresolved, eq_comm]

theorem run_nil : run table ⟨met, roles, []⟩ = .ok ⟨met, roles, []⟩ := by
  rw [run, dif_pos rfl]

theorem run_cons {node : NodeId} {next : Survey}
    (hstep : step table ⟨met, roles, node :: rest⟩ = .ok next) :
    run table ⟨met, roles, node :: rest⟩ = run table next := by
  rw [run, dif_neg (List.cons_ne_nil _ _)]
  split <;> simp_all

/-- A survey that succeeds has found a forest, of which it has met every node. -/
theorem exists_covers_of_run {survey last : Survey} (hrun : run table survey = .ok last) :
    ∃ trees, Covers table survey trees ∧
      last = ⟨(trees.flatMap SplitTree.ids).reverse ++ survey.met,
        (trees.flatMap SplitTree.roles).reverse ++ survey.roles, []⟩ := by
  fun_induction run table survey with
  | case1 survey hpending =>
      obtain ⟨met, roles, pending⟩ := survey
      obtain rfl : pending = [] := hpending
      simp only [Except.ok.injEq] at hrun
      exact ⟨[], covers_nil.mpr rfl, by simp [hrun]⟩
  | case2 survey hpending defect hstep => simp at hrun
  | case3 survey hpending next hstep ih =>
      obtain ⟨trees, htrees, hlast⟩ := ih hrun
      obtain ⟨met, roles, pending⟩ := survey
      cases pending with
      | nil => exact absurd rfl hpending
      | cons node rest =>
          obtain ⟨hnode, meaning, hresolved, rfl⟩ := step_eq_ok_iff.mp hstep
          cases meaning with
          | leaf coefficient =>
              refine ⟨_, covers_leaf.mpr ⟨hresolved, hnode, htrees⟩, ?_⟩
              simp [hlast, SplitTree.ids, SplitTree.roles, Node.kind]
          | split column threshold left right =>
              -- The two children stand at the front of what is pending next.
              have hroots := htrees.roots
              simp only [children, Node.kind, List.cons_append, List.nil_append] at hroots htrees
              obtain ⟨low, trees, rfl, rfl, hrest⟩ := List.map_eq_cons_iff.mp hroots
              obtain ⟨high, others, rfl, rfl, -⟩ := List.map_eq_cons_iff.mp hrest
              refine ⟨_, covers_branch.mpr ⟨hresolved, hnode, htrees⟩, ?_⟩
              simp [hlast, SplitTree.ids, SplitTree.roles, Node.kind]

/-- A survey of a forest succeeds. -/
theorem run_of_covers {survey : Survey} {trees : List SplitTree}
    (hcovers : Covers table survey trees) :
    run table survey = .ok ⟨(trees.flatMap SplitTree.ids).reverse ++ survey.met,
      (trees.flatMap SplitTree.roles).reverse ++ survey.roles, []⟩ := by
  obtain ⟨met, roles, pending⟩ := survey
  -- The number of nodes in the forest drops by one with each step.
  induction hsize : (trees.flatMap SplitTree.ids).length generalizing trees met roles pending with
  | zero =>
      cases trees with
      | nil =>
          obtain rfl : pending = [] := hcovers.roots.symm
          simp [run_nil]
      | cons tree others => cases tree <;> simp [SplitTree.ids] at hsize
  | succ size ih =>
      cases trees with
      | nil => simp at hsize
      | cons tree others =>
          cases pending with
          | nil => exact absurd hcovers.roots (by simp)
          | cons node rest =>
              obtain ⟨rfl, hrest⟩ := List.cons.inj hcovers.roots
              cases tree with
              | leaf id coefficient =>
                  obtain ⟨hresolved, hnode, hnext⟩ := covers_leaf.mp hcovers
                  simp only [SplitTree.id] at hresolved hnode hnext ⊢
                  rw [run_cons (step_eq_ok_iff.mpr ⟨hnode, _, hresolved, rfl⟩)]
                  refine (ih _ _ _ hnext ?_).trans ?_
                  · simpa [SplitTree.ids] using hsize
                  · simp [SplitTree.ids, SplitTree.roles]
              | branch id column threshold left right =>
                  have hid : (SplitTree.branch id column threshold left right).id = id := rfl
                  rw [hid] at hcovers ⊢
                  obtain ⟨hresolved, hnode, hnext⟩ := covers_branch.mp hcovers
                  rw [run_cons (step_eq_ok_iff.mpr ⟨hnode, _, hresolved, rfl⟩)]
                  refine (ih _ _ _ hnext ?_).trans ?_
                  · simp only [List.flatMap_cons, SplitTree.ids, List.length_append,
                      List.length_cons] at hsize ⊢
                    omega
                  · simp [SplitTree.ids, SplitTree.roles]

/-- A survey from the root succeeds exactly if a tree without repeated numbers follows
the table from there, and it meets the nodes of that tree and notes their roles. -/
theorem start_run_eq_ok_iff {last : Survey} :
    start.run table = .ok last ↔ ∃ tree : SplitTree, tree.Follows table ∧ tree.id = rootId ∧
      tree.ids.Nodup ∧ last = ⟨tree.ids.reverse, tree.roles.reverse, []⟩ := by
  constructor
  · intro hrun
    obtain ⟨trees, hcovers, hlast⟩ := exists_covers_of_run hrun
    obtain ⟨tree, others, rfl, hroot, hothers⟩ := List.map_eq_cons_iff.mp hcovers.roots
    obtain rfl : others = [] := List.map_eq_nil_iff.mp hothers
    have hdistinct := hcovers.distinct
    simp only [List.flatMap_cons, List.flatMap_nil, List.append_nil, start] at hdistinct hlast
    exact ⟨tree, hcovers.follows tree (by simp), hroot, hdistinct, hlast⟩
  · rintro ⟨tree, hfollows, hroot, hdistinct, rfl⟩
    have hcovers : Covers table start [tree] :=
      ⟨by simpa using hfollows, by simp [hroot, start], by simpa using hdistinct, by simp [start]⟩
    simpa [start] using run_of_covers hcovers

end Survey

end ItemScoring
