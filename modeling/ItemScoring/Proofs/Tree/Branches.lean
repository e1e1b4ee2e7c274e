import Mathlib.Data.List.Nodup
import Mathlib.Data.List.Perm.Subperm
import ItemScoring.Proofs.Tree.Defects
import ItemScoring.Proofs.Tree.Routes

/-!
# Branch expressions of arbitrary tables

A branch expression can be asked for from any table, cyclic, shared, repeated or incomplete as it
may be.  It exists exactly if no way down from the node repeats a number and every number on it
stands for something, and it then is the sum of one term per leaf occurrence, from left to right.
Otherwise the first defect is reported.

Growing the tree first and writing its terms down afterwards comes to the same as one walk that
carries the conditions along (`SplitTree.termsBy`).  Every call of that walk but the innermost is
for the number of a row that is not on the way yet, so the calls are never nested deeper than there
are numbers of rows, and one call more (`termsBy_resolve`).
-/

namespace ItemScoring

/-- The sum of some terms; a single term stands alone. -/
def Expr.ofTerms : List Expr → Expr
  | [term] => term
  | terms => .sum terms

theorem SplitTree.expression_eq (tree : SplitTree) (conditions : List Expr) :
    tree.expression conditions = .ofTerms (tree.terms conditions) := by
  rw [expression]
  split
  next term hterms => rw [hterms, Expr.ofTerms]
  next hterms => rw [Expr.ofTerms]; exact hterms

/-! ### One walk -/

/-- The terms of the leaves below a node, found in one walk that asks `lookup` what numbers stand
for, with the nodes of `path` above the node and under the conditions of the turns to it; `none` if
that takes more than `depth` nested calls. -/
def SplitTree.termsBy (lookup : NodeId → Except TreeError Node) : (depth : Nat) →
    (path : List NodeId) → (conditions : List Expr) → (node : NodeId) →
    Option (Except TreeError (List Expr))
  | 0, _, _, _ => none
  | depth + 1, path, conditions, node =>
    if node ∈ path then some (.error (.cycleDetected node))
    else
      match lookup node with
      | .error defect => some (.error defect)
      | .ok (.leaf coefficient) => some (.ok [.under coefficient conditions])
      | .ok (.split column threshold left right) => do
        match ← termsBy lookup depth (node :: path)
            (conditions ++ [.indicator column .atMost threshold]) left with
        | .error defect => return .error defect
        | .ok low =>
          let high ← termsBy lookup depth (node :: path)
            (conditions ++ [.indicator column .above threshold]) right
          return high.map (low ++ ·)

namespace SplitTable

variable {table : SplitTable} {path : List NodeId} {node : NodeId} {conditions : List Expr}

/-- A way down that repeats no number has at most as many splits as there are numbers of rows. -/
theorem length_path_le (hpath : path.Nodup) (hrows : path ⊆ table.splitNumbers) :
    path.length ≤ table.splitNumbers.eraseDups.length := by
  refine (List.subperm_of_subset hpath fun node hnode => ?_).length_le
  exact List.mem_eraseDups.mpr (hrows hnode)

/-- A walk over a table finds the terms of the tree, if it may nest as deep as there are numbers of
rows that are not on the way yet, and once more. -/
theorem termsBy_resolve {depth : Nat} (hpath : path.Nodup) (hrows : path ⊆ table.splitNumbers)
    (hdepth : table.splitNumbers.eraseDups.length < depth + path.length) :
    SplitTree.termsBy table.resolve depth path conditions node =
      some ((table.unfold path node).map (SplitTree.terms conditions)) := by
  induction depth generalizing path conditions node with
  | zero =>
      have := length_path_le hpath hrows
      omega
  | succ depth ih =>
      rw [SplitTree.termsBy]
      by_cases hfresh : node ∈ path
      · rw [if_pos hfresh, unfold_of_defect (.cycle hfresh)]
        rfl
      rw [if_neg hfresh]
      cases hresolved : table.resolve node with
      | error defect =>
          rw [unfold_of_defect (.fault hfresh (resolve_eq_error_iff.mp hresolved))]
          rfl
      | ok meaning =>
          cases meaning with
          | leaf coefficient =>
              simp only [unfold_leaf hfresh hresolved, Except.map, SplitTree.terms,
                SplitTree.leafTerm_eq]
          | split column threshold left right =>
              -- The node is the number of a row, and goes on top of the way.
              have hnode := mem_splitNumbers_of_resolve hresolved
              have hpath' : (node :: path).Nodup := List.nodup_cons.mpr ⟨hfresh, hpath⟩
              have hrows' : node :: path ⊆ table.splitNumbers := List.cons_subset.mpr ⟨hnode, hrows⟩
              have hdepth' : table.splitNumbers.eraseDups.length <
                  depth + (node :: path).length := by
                rw [List.length_cons]
                omega
              simp only [ih hpath' hrows' hdepth', unfold_split hfresh hresolved]
              cases table.unfold (node :: path) left with
              | error defect => rfl
              | ok low => cases table.unfold (node :: path) right <;> rfl

/-! ### The expression -/

theorem branchExpression_eq_map (table : SplitTable) (node : NodeId) (conditions : List Expr) :
    table.branchExpression node conditions =
      (table.unfold [] node).map (SplitTree.expression conditions) := rfl

/-- The walk of bounded depth comes to the branch expression. -/
theorem branchExpression_within (table : SplitTable) (node : NodeId) (conditions : List Expr) :
    (SplitTree.termsBy table.resolve (table.splitNumbers.eraseDups.length + 1) [] conditions
      node).map (Except.map Expr.ofTerms) = some (table.branchExpression node conditions) := by
  rw [termsBy_resolve List.nodup_nil (List.nil_subset _) (Nat.lt_succ_self _),
    branchExpression_eq_map]
  cases table.unfold [] node with
  | error defect => rfl
  | ok tree => exact congrArg (some ∘ Except.ok) (tree.expression_eq conditions).symm

/-- A way to a sound occurrence repeats nothing. -/
theorem SoundBelow.nodup (h : table.SoundBelow path node) (hpath : path.Nodup) {turns : List Turn}
    {last : NodeId} (hleads : table.Leads node turns last) :
    (last :: Turn.above path turns).Nodup := by
  induction hleads generalizing path with
  | here => exact List.nodup_cons.mpr ⟨(h _ _ .here).fresh, hpath⟩
  | down side row_eq child_eq rest ih =>
      have hbelow : table.SoundBelow (_ :: path) _ := fun turns last hrest =>
        above_turn row_eq side turns ▸ h _ _ (.down side row_eq child_eq hrest)
      rw [above_turn row_eq]
      exact ih hbelow (List.nodup_cons.mpr ⟨(h _ _ .here).fresh, hpath⟩)

theorem nodup_above_iff {turns : List Turn} {last : NodeId} :
    (last :: Turn.above [] turns).Nodup ↔ (turns.map Turn.node ++ [last]).Nodup := by
  have hreverse : (last :: Turn.above [] turns).reverse = turns.map Turn.node ++ [last] := by
    simp [Turn.above]
  rw [← hreverse]
  exact (List.reverse_perm _).nodup_iff.symm

theorem exists_branchExpression_iff (table : SplitTable) (node : NodeId)
    (conditions : List Expr) :
    (∃ expression, table.branchExpression node conditions = .ok expression) ↔
      ∀ turns last, table.Leads node turns last →
        (turns.map Turn.node ++ [last]).Nodup ∧ table.Stands last := by
  have hunfold : (∃ expression, table.branchExpression node conditions = .ok expression) ↔
      ∃ tree, table.unfold [] node = .ok tree := by
    rw [branchExpression_eq_map]
    cases table.unfold [] node <;> simp [Except.map]
  rw [hunfold, exists_unfold_iff]
  constructor
  · intro hsound turns last hleads
    exact ⟨nodup_above_iff.mp (hsound.nodup List.nodup_nil hleads), (hsound _ _ hleads).stands⟩
  · intro hgood turns last hleads
    obtain ⟨hnodup, hstands⟩ := hgood turns last hleads
    exact ⟨(List.nodup_cons.mp (nodup_above_iff.mpr hnodup)).1, hstands⟩

theorem exists_routes_of_branchExpression {expression : Expr}
    (h : table.branchExpression node conditions = .ok expression) :
    ∃ routes : List Route, (∀ route, route ∈ routes ↔ table.HasRoute node route) ∧
      (routes.Pairwise fun first second => Turn.Earlier first.turns second.turns) ∧
      expression = .ofTerms (routes.map (Route.term conditions)) := by
  rw [branchExpression_eq_map] at h
  cases hunfold : table.unfold [] node with
  | error defect => simp [hunfold, Except.map] at h
  | ok tree =>
      obtain ⟨hfollows, rfl⟩ := follows_of_unfold hunfold
      refine ⟨tree.routes, fun route => hfollows.mem_routes_iff, tree.pairwise_routes, ?_⟩
      rw [hunfold] at h
      rw [← Except.ok.inj h, tree.expression_eq, tree.terms_eq]

theorem branchExpression_eq_error_iff (table : SplitTable) (node : NodeId)
    (conditions : List Expr) (e : TreeError) :
    table.branchExpression node conditions = .error e ↔ table.FirstDefect [] node e := by
  rw [← unfold_eq_error_iff, branchExpression_eq_map]
  cases table.unfold [] node <;> simp [Except.map]

/-- What asking for a branch expression comes to: it takes no more nested calls than there are
numbers of rows, and one; it succeeds exactly if no way down repeats a number and every number
stands for something; the expression has one term per leaf occurrence, from left to right; and a
refusal names the first defect on the way. -/
theorem branchExpression_outcome (table : SplitTable) (node : NodeId) (conditions : List Expr) :
    (SplitTree.termsBy table.resolve (table.splitNumbers.eraseDups.length + 1) [] conditions
      node).map (Except.map Expr.ofTerms) = some (table.branchExpression node conditions) ∧
    ((∃ expression, table.branchExpression node conditions = .ok expression) ↔
      ∀ turns last, table.Leads node turns last →
        (turns.map Turn.node ++ [last]).Nodup ∧ table.Stands last) ∧
    (∀ expression, table.branchExpression node conditions = .ok expression →
      ∃ routes : List Route, (∀ route, route ∈ routes ↔ table.HasRoute node route) ∧
        (routes.Pairwise fun first second => Turn.Earlier first.turns second.turns) ∧
        expression = .ofTerms (routes.map (Route.term conditions))) ∧
    ∀ e, table.branchExpression node conditions = .error e ↔ table.FirstDefect [] node e :=
  ⟨branchExpression_within table node conditions,
    exists_branchExpression_iff table node conditions,
    fun _ => exists_routes_of_branchExpression,
    branchExpression_eq_error_iff table node conditions⟩

/-- Split 3 is a child of both splits above it, and split 2 compares with no number. -/
def sharedTable : SplitTable where
  splits := [⟨1, 1, some 2, some 3, "age", 40⟩, ⟨1, 2, some 4, some 3, "age", 0 / 0⟩,
    ⟨1, 3, some 4, some 5, "sex", 0⟩]
  leafIds := [4, 5]
  coefficients := .ofEntries [(4, 0.5), (5, -0.25)]

/-- Both occurrences of the shared split have their terms, each of them under the given condition
and its own way down; the same is asked of a leaf for itself, which then stands alone. -/
theorem branchExpression_outcome_sharedTable :
    let given : Expr := .indicator "score" .above 1
    let young : Expr := .indicator "age" .atMost 40
    let old : Expr := .indicator "age" .above 40
    let terms : List Expr := [
      .product [.coefficient 0.5, given, young, .indicator "age" .atMost (0 / 0)],
      .product [.coefficient 0.5, given, young, .indicator "age" .above (0 / 0),
        .indicator "sex" .atMost 0],
      .product [.coefficient (-0.25), given, young, .indicator "age" .above (0 / 0),
        .indicator "sex" .above 0],
      .product [.coefficient 0.5, given, old, .indicator "sex" .atMost 0],
      .product [.coefficient (-0.25), given, old, .indicator "sex" .above 0]]
    sharedTable.branchExpression 1 [given] = .ok (.sum terms) ∧
      (∃ routes : List Route, (∀ route, route ∈ routes ↔ sharedTable.HasRoute 1 route) ∧
        routes.map (Route.term [given]) = terms) ∧
      sharedTable.branchExpression 5 [] = .ok (.coefficient (-0.25)) ∧
      sharedTable.branchExpression 6 [given] = .error (.splitNotFound 6) := by
  intro given young old terms
  have hshared : sharedTable.unfold [] 1 = .ok (.branch 1 "age" 40
      (.branch 2 "age" (0 / 0) (.leaf 4 0.5)
        (.branch 3 "sex" 0 (.leaf 4 0.5) (.leaf 5 (-0.25))))
      (.branch 3 "sex" 0 (.leaf 4 0.5) (.leaf 5 (-0.25)))) := by decide +kernel
  have hleaf : sharedTable.unfold [] 5 = .ok (.leaf 5 (-0.25)) := by decide +kernel
  have hbuilt : sharedTable.branchExpression 1 [given] = .ok (.sum terms) := by
    rw [branchExpression_eq_map, hshared]
    rfl
  have hunknown : sharedTable.FirstDefect [] 6 (.splitNotFound 6) := by
    refine ⟨[], 6, .here, .fault (by simp [Turn.above]) (.row (by decide) (by decide)), ?_⟩
    -- Nothing comes before the empty way.
    intro turns last _ hearlier
    cases hearlier
  obtain ⟨-, -, hroutes, -⟩ := branchExpression_outcome sharedTable 1 [given]
  obtain ⟨routes, hmem, -, hsum⟩ := hroutes _ hbuilt
  refine ⟨hbuilt, ⟨routes, hmem, ?_⟩, ?_,
    ((branchExpression_outcome sharedTable 6 [given]).2.2.2 _).mpr hunknown⟩
  · cases hterms : routes.map (Route.term [given]) with
    | nil => simp [hterms, Expr.ofTerms, terms] at hsum
    | cons first rest =>
        cases rest with
        | nil =>
            -- A single term would be a sum itself, but under a condition it is a product.
            obtain ⟨route, -, rfl⟩ := List.mem_map.mp (hterms ▸ List.mem_singleton_self first)
            simp [hterms, Expr.ofTerms, Route.term, Expr.under] at hsum
        | cons second rest => simpa [hterms, Expr.ofTerms] using hsum.symm
  · rw [branchExpression_eq_map, hleaf]
    rfl

end SplitTable

end ItemScoring
