import ItemScoring.Proofs.Tree.Occurrences

/-!
# Routes to the leaves

The terms of a tree belong to its leaves, and each of them says how to get there: its conditions
are the turns from the root (`SplitTree.terms_eq`).  A tree lists its routes from left to right
(`SplitTree.pairwise_routes`), and a tree that follows a table has exactly the routes to the leaf
occurrences of the table (`SplitTree.Follows.mem_routes_iff`).
-/

namespace ItemScoring

/-- A coefficient under some conditions: their product, with the coefficient first; without
conditions it stands alone. -/
def Expr.under (coefficient : Float) : List Expr → Expr
  | [] => .coefficient coefficient
  | conditions => .product (.coefficient coefficient :: conditions)

/-- The way to an occurrence of a leaf, with the coefficient found there. -/
structure Route where
  turns : List Turn
  coefficient : Float

namespace Route

/-- The route with one turn before it. -/
def after (turn : Turn) (route : Route) : Route := { route with turns := turn :: route.turns }

/-- The term of the leaf: its coefficient under the given conditions and those of the turns. -/
def term (conditions : List Expr) (route : Route) : Expr :=
  .under route.coefficient (conditions ++ route.turns.map Turn.condition)

theorem term_after (conditions : List Expr) (turn : Turn) (route : Route) :
    (route.after turn).term conditions = route.term (conditions ++ [turn.condition]) := by
  simp [term, after]

end Route

namespace SplitTable

/-- The route leads from the node to a leaf with its coefficient. -/
def HasRoute (table : SplitTable) (node : NodeId) (route : Route) : Prop :=
  ∃ leaf, table.Leads node route.turns leaf ∧ table.IsLeaf leaf route.coefficient

end SplitTable

namespace SplitTree

theorem leafTerm_eq (coefficient : Float) (conditions : List Expr) :
    leafTerm coefficient conditions = .under coefficient conditions := by
  cases conditions <;> rfl

/-- The routes to all leaves, from left to right. -/
def routes : SplitTree → List Route
  | leaf _ coefficient => [⟨[], coefficient⟩]
  | branch id column threshold left right =>
    left.routes.map (Route.after ⟨id, column, threshold, .atMost⟩) ++
      right.routes.map (Route.after ⟨id, column, threshold, .above⟩)

theorem terms_eq (tree : SplitTree) (conditions : List Expr) :
    tree.terms conditions = tree.routes.map (Route.term conditions) := by
  induction tree generalizing conditions with
  | leaf id coefficient => simp [terms, routes, Route.term, leafTerm_eq]
  | branch id column threshold left right ihleft ihright =>
      simp only [terms, routes, ihleft, ihright, List.map_append, List.map_map]
      congr 1
      · exact List.map_congr_left fun route _ =>
          (Route.term_after conditions ⟨id, column, threshold, .atMost⟩ route).symm
      · exact List.map_congr_left fun route _ =>
          (Route.term_after conditions ⟨id, column, threshold, .above⟩ route).symm

theorem pairwise_routes (tree : SplitTree) :
    tree.routes.Pairwise fun first second => Turn.Earlier first.turns second.turns := by
  induction tree with
  | leaf id coefficient => exact List.pairwise_singleton _ _
  | branch id column threshold left right ihleft ihright =>
      refine List.pairwise_append.mpr ⟨?_, ?_, ?_⟩
      · exact List.pairwise_map.mpr (ihleft.imp fun h => .cons h)
      · exact List.pairwise_map.mpr (ihright.imp fun h => .cons h)
      · intro first hfirst second hsecond
        obtain ⟨-, -, rfl⟩ := List.mem_map.mp hfirst
        obtain ⟨-, -, rfl⟩ := List.mem_map.mp hsecond
        exact .rel ⟨rfl, rfl⟩

variable {table : SplitTable}

/-- The two turns at a branch are those at the row that it follows. -/
theorem Follows.exists_row {id : NodeId} {column : String} {threshold : Float}
    {left right : SplitTree} (h : (branch id column threshold left right).Follows table) :
    ∃ row, table.row? id = some row ∧ row.left = some left.id ∧ row.right = some right.id ∧
      ∀ side, (⟨id, column, threshold, side⟩ : Turn) = row.turn side := by
  obtain ⟨row, hrow, hleft, hright, rfl, rfl⟩ := SplitTable.resolve_eq_split_iff.mp h.1
  exact ⟨row, hrow, hleft, hright, fun side => by rw [Split.turn, SplitTable.number_of_row? hrow]⟩

theorem Follows.mem_routes_iff {tree : SplitTree} (htree : tree.Follows table) {route : Route} :
    route ∈ tree.routes ↔ table.HasRoute tree.id route := by
  induction tree generalizing route with
  | leaf id coefficient =>
      have hleaf := SplitTable.resolve_eq_leaf_iff.mp htree
      simp only [routes, List.mem_singleton, SplitTable.HasRoute, SplitTree.id,
        SplitTable.leads_of_row?_eq_none hleaf.row?_eq_none]
      constructor
      · rintro rfl
        exact ⟨id, ⟨rfl, rfl⟩, hleaf⟩
      · obtain ⟨turns, found⟩ := route
        rintro ⟨_, ⟨rfl, rfl⟩, hfound⟩
        obtain rfl : found = coefficient :=
          Option.some.inj (hfound.coefficient_eq.symm.trans hleaf.coefficient_eq)
        rfl
  | branch id column threshold left right ihleft ihright =>
      obtain ⟨row, hrow, hlow, hhigh, hturn⟩ := htree.exists_row
      simp only [routes, List.mem_append, List.mem_map, ihleft htree.2.1, ihright htree.2.2, hturn]
      constructor
      · rintro (⟨rest, ⟨leaf, hleads, hleaf⟩, rfl⟩ | ⟨rest, ⟨leaf, hleads, hleaf⟩, rfl⟩)
        · exact ⟨leaf, .down .atMost hrow hlow hleads, hleaf⟩
        · exact ⟨leaf, .down .above hrow hhigh hleads, hleaf⟩
      · obtain ⟨turns, coefficient⟩ := route
        rintro ⟨leaf, hleads, hleaf⟩
        rcases (SplitTable.leads_of_children hrow hlow hhigh).mp hleads with
          ⟨rfl, rfl⟩ | ⟨rest, rfl, hrest⟩ | ⟨rest, rfl, hrest⟩
        · -- The branch itself is a row, and no leaf.
          exact absurd (hrow.symm.trans hleaf.row?_eq_none) (Option.some_ne_none row)
        · exact Or.inl ⟨⟨rest, coefficient⟩, ⟨leaf, hrest, hleaf⟩, rfl⟩
        · exact Or.inr ⟨⟨rest, coefficient⟩, ⟨leaf, hrest, hleaf⟩, rfl⟩

end SplitTree

end ItemScoring
