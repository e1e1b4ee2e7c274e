import ItemScoring.Proofs.Number.Arithmetic
import ItemScoring.Proofs.Tree.Branches
import ItemScoring.Proofs.Tree.Columns

/-!
# Which terms a record selects

A term is selected by a record if all of its indicators are one.  The two tests of a split exclude
each other, whatever is compared, and one of them holds unless the value or the threshold is not a
number (`Comparison.holds_of_isNaN`).  So a record that descends to a leaf selects the term of that
leaf and no other one, and a record that gets stuck selects none
(`SplitTree.Follows.filter_routes_of_reachesLeaf`, `SplitTree.Follows.filter_routes_of_stalls`).
-/

namespace ItemScoring

/-! ### Both sides of a threshold -/

namespace Comparison

variable {value threshold : Float}

/-- What is not a number lies on neither side. -/
theorem holds_of_isNaN (h : value.isNaN = true ∨ threshold.isNaN = true) (test : Comparison) :
    test.holds value threshold = false := by
  have hnone : (Binary64.decoded value).compare (Binary64.decoded threshold) = none :=
    Binary64.compare_of_isNaN h
  cases test with
  | atMost =>
      rw [holds, decide_eq_false_iff_not, Binary64.le_eq, hnone]
      simp
  | above =>
      change decide (threshold < value) = false
      rw [decide_eq_false_iff_not, Binary64.lt_eq, Binary64.compare_swap, hnone]
      simp

/-- Of two numbers, the first lies on exactly one side of the second. -/
theorem holds_above_eq (hvalue : value.isNaN = false) (hthreshold : threshold.isNaN = false) :
    above.holds value threshold = !atMost.holds value threshold := by
  rw [holds, holds, ← decide_not]
  exact decide_eq_decide.mpr (Binary64.lt_iff_not_le hvalue hthreshold)

/-- Nothing lies on both sides. -/
theorem not_holds_both (value threshold : Float) :
    (atMost.holds value threshold && above.holds value threshold) = false := by
  by_cases hnan : value.isNaN = true ∨ threshold.isNaN = true
  · rw [holds_of_isNaN hnan, Bool.false_and]
  · simp only [not_or, Bool.not_eq_true] at hnan
    rw [holds_above_eq hnan.1 hnan.2, Bool.and_not_self]

end Comparison

/-! ### Selected terms -/

namespace Expr

/-- The factors of a product; any other expression is a single factor. -/
def factors : Expr → List Expr
  | .product factors => factors
  | e => [e]

/-- Whether the expression is an indicator. -/
def isIndicator : Expr → Bool
  | .indicator _ _ _ => true
  | _ => false

/-- Whether all indicators of a term are one on a record. -/
def isSelected (record : Record) (term : Expr) : Bool :=
  term.factors.all fun factor => !factor.isIndicator || factor.evaluate record == .ok 1

end Expr

/-- Whether a record takes the turn. -/
def Turn.isTaken (record : Record) (turn : Turn) : Bool :=
  match record.value? turn.column with
  | some value => turn.side.holds value turn.threshold
  | none => false

/-- Whether a record takes the whole route. -/
def Route.isTaken (record : Record) (route : Route) : Bool :=
  route.turns.all (Turn.isTaken record)

variable {record : Record}

theorem Turn.evaluate_condition (turn : Turn) :
    (turn.condition.evaluate record == .ok 1) = turn.isTaken record := by
  rw [condition, Expr.evaluate, Record.lookup, isTaken]
  cases record.value? turn.column with
  | none => rfl
  | some value =>
      change (Except.ok (if turn.side.holds value turn.threshold then 1 else 0) == Except.ok 1) =
        turn.side.holds value turn.threshold
      cases turn.side.holds value turn.threshold <;> decide

/-- A term is selected if its route is taken. -/
theorem Route.isSelected_term (route : Route) :
    (route.term []).isSelected record = route.isTaken record := by
  obtain ⟨turns, coefficient⟩ := route
  cases turns with
  | nil => rfl
  | cons first rest =>
      have hterm : (Route.term [] ⟨first :: rest, coefficient⟩).factors =
          .coefficient coefficient :: (first :: rest).map Turn.condition := rfl
      rw [Expr.isSelected, hterm, List.all_cons, List.all_map, isTaken]
      simp only [Expr.isIndicator, Bool.not_false, Bool.true_or, Bool.true_and]
      refine List.all_congr rfl fun turn => ?_
      exact turn.evaluate_condition

theorem Route.filter_map_after (routes : List Route) (turn : Turn) :
    (routes.map (Route.after turn)).filter (Route.isTaken record) =
      if turn.isTaken record then (routes.filter (Route.isTaken record)).map (Route.after turn)
      else [] := by
  have hafter : Route.isTaken record ∘ Route.after turn =
      fun route => turn.isTaken record && route.isTaken record := rfl
  rw [List.filter_map, hafter]
  cases turn.isTaken record <;> simp

/-! ### Descending along a table -/

namespace SplitTable

variable {row : Split}

/-- The record comes from the node to the last one, to the left child where its value is at most
the threshold, and to the right child where it is above. -/
structure Reaches (table : SplitTable) (record : Record) (node : NodeId) (turns : List Turn)
    (last : NodeId) : Prop where
  leads : table.Leads node turns last
  taken : ∀ turn ∈ turns, turn.isTaken record = true

/-- The record comes to a leaf. -/
def ReachesLeaf (table : SplitTable) (record : Record) (node : NodeId) (route : Route) : Prop :=
  ∃ leaf, table.Reaches record node route.turns leaf ∧ table.IsLeaf leaf route.coefficient

/-- The record comes to a row where its value or the threshold is not a number. -/
def Stalls (table : SplitTable) (record : Record) (node : NodeId) : Prop :=
  ∃ turns last row value, table.Reaches record node turns last ∧ table.row? last = some row ∧
    record.value? row.column = some value ∧ (value.isNaN = true ∨ row.threshold.isNaN = true)

theorem isTaken_turn {value : Float} (hvalue : record.value? row.column = some value)
    (side : Comparison) :
    (row.turn side).isTaken record = side.holds value row.threshold := by
  simp [Turn.isTaken, Split.turn, hvalue]

/-- A record does not take both turns at a row. -/
theorem isTaken_other {side : Comparison} (other : Comparison) (hne : side ≠ other)
    (htaken : (row.turn side).isTaken record = true) : (row.turn other).isTaken record = false := by
  cases hvalue : record.value? row.column with
  | none => simp [Turn.isTaken, Split.turn, hvalue]
  | some value =>
      rw [isTaken_turn hvalue] at htaken ⊢
      have hboth := Comparison.not_holds_both value row.threshold
      cases side <;> cases other <;> simp_all

end SplitTable

namespace SplitTree

variable {table : SplitTable} {node last : NodeId} {turns : List Turn} {row : Split}

open SplitTable

/-- A number with a row is no leaf of a tree, but a branch on that row. -/
theorem Follows.exists_branch {tree : SplitTree} (htree : tree.Follows table)
    (hrow : table.row? tree.id = some row) : ∃ left right : SplitTree,
      left.Follows table ∧ right.Follows table ∧
      row.left = some left.id ∧ row.right = some right.id ∧
      tree.routes = left.routes.map (Route.after (row.turn .atMost)) ++
        right.routes.map (Route.after (row.turn .above)) := by
  cases tree with
  | leaf id coefficient =>
      have hnone := (resolve_eq_leaf_iff.mp htree).row?_eq_none
      exact absurd (hrow.symm.trans hnone) (Option.some_ne_none row)
  | branch id column threshold left right =>
      obtain ⟨other, hother, hlow, hhigh, hturn⟩ := htree.exists_row
      obtain rfl := Option.some.inj (hrow.symm.trans hother)
      refine ⟨left, right, htree.2.1, htree.2.2, hlow, hhigh, ?_⟩
      rw [routes, hturn, hturn]

/-- At a row where a record takes a turn, the routes that it takes are those below the turn. -/
theorem Follows.exists_child_taken {tree : SplitTree} (htree : tree.Follows table)
    (hrow : table.row? tree.id = some row) {side : Comparison} {child : NodeId}
    (hchild : row.child? side = some child) (hturn : (row.turn side).isTaken record = true) :
    ∃ part : SplitTree, part.Follows table ∧ part.id = child ∧
      tree.routes.filter (Route.isTaken record) =
        (part.routes.filter (Route.isTaken record)).map (Route.after (row.turn side)) := by
  obtain ⟨left, right, hleft, hright, hlow, hhigh, hroutes⟩ := htree.exists_branch hrow
  rw [hroutes, List.filter_append, Route.filter_map_after, Route.filter_map_after]
  cases side with
  | atMost =>
      refine ⟨left, hleft, Option.some.inj (hlow.symm.trans hchild), ?_⟩
      have hother := isTaken_other .above (by decide) hturn
      rw [if_pos hturn, hother]
      exact List.append_nil _
  | above =>
      refine ⟨right, hright, Option.some.inj (hhigh.symm.trans hchild), ?_⟩
      have hother := isTaken_other .atMost (by decide) hturn
      rw [if_pos hturn, hother]
      rfl

/-- The routes that a record takes are those below the last node that it reaches. -/
theorem Follows.exists_part_taken {tree : SplitTree} (htree : tree.Follows table)
    (hid : tree.id = node) (hreaches : table.Reaches record node turns last) :
    ∃ part : SplitTree, part.Follows table ∧ part.id = last ∧
      tree.routes.filter (Route.isTaken record) =
        (part.routes.filter (Route.isTaken record)).map fun route =>
          { route with turns := turns ++ route.turns } := by
  obtain ⟨hleads, htaken⟩ := hreaches
  induction hleads generalizing tree with
  | here => exact ⟨tree, htree, hid, (List.map_id _).symm⟩
  | down side row_eq child_eq rest ih =>
      obtain ⟨hturn, hrest⟩ := List.forall_mem_cons.mp htaken
      obtain ⟨child, hfollows, hchild, hfilter⟩ :=
        htree.exists_child_taken (hid ▸ row_eq) child_eq hturn
      obtain ⟨part, hpart, hlast, hroutes⟩ := ih hfollows hchild hrest
      refine ⟨part, hpart, hlast, ?_⟩
      rw [hfilter, hroutes, List.map_map]
      rfl

/-- A record that comes to a leaf takes the route there, and no other one. -/
theorem Follows.filter_routes_of_reachesLeaf {tree : SplitTree} (htree : tree.Follows table)
    {route : Route} (h : table.ReachesLeaf record tree.id route) :
    tree.routes.filter (Route.isTaken record) = [route] := by
  obtain ⟨leaf, hreaches, hleaf⟩ := h
  obtain ⟨part, hpart, hlast, hfilter⟩ := htree.exists_part_taken rfl hreaches
  have hhere : (Route.mk [] route.coefficient).isTaken record = true := rfl
  rw [hfilter, hpart.eq_leaf hlast (resolve_eq_leaf_iff.mpr hleaf), routes,
    List.filter_singleton, hhere]
  simp

/-- A record that gets stuck takes no route. -/
theorem Follows.filter_routes_of_stalls {tree : SplitTree} (htree : tree.Follows table)
    (h : table.Stalls record tree.id) : tree.routes.filter (Route.isTaken record) = [] := by
  obtain ⟨turns, last, row, value, hreaches, hrow, hvalue, hnan⟩ := h
  obtain ⟨part, hpart, hlast, hfilter⟩ := htree.exists_part_taken rfl hreaches
  obtain ⟨left, right, -, -, -, -, hroutes⟩ := hpart.exists_branch (hlast ▸ hrow)
  have hsides : ∀ side, (row.turn side).isTaken record = false := fun side =>
    (isTaken_turn hvalue side).trans (Comparison.holds_of_isNaN hnan side)
  rw [hfilter, hroutes, List.filter_append, Route.filter_map_after, Route.filter_map_after,
    hsides, hsides]
  rfl

/-- A turn that a record takes is the first one of its way. -/
theorem reachesLeaf_or_stalls_of_turn {child : NodeId} (side : Comparison)
    (hrow : table.row? node = some row) (hchild : row.child? side = some child)
    (hturn : (row.turn side).isTaken record = true)
    (h : (∃ route, table.ReachesLeaf record child route) ∨ table.Stalls record child) :
    (∃ route, table.ReachesLeaf record node route) ∨ table.Stalls record node := by
  have hafter : ∀ {turns last}, table.Reaches record child turns last →
      table.Reaches record node (row.turn side :: turns) last := fun hreaches =>
    ⟨.down side hrow hchild hreaches.leads, List.forall_mem_cons.mpr ⟨hturn, hreaches.taken⟩⟩
  rcases h with ⟨route, leaf, hreaches, hleaf⟩ | ⟨turns, last, stuck, value, hreaches, hstuck⟩
  · exact Or.inl ⟨route.after (row.turn side), leaf, hafter hreaches, hleaf⟩
  · exact Or.inr ⟨_, last, stuck, value, hafter hreaches, hstuck⟩

/-- With all values that are tested, a record comes to a leaf or gets stuck. -/
theorem Follows.reachesLeaf_or_stalls {tree : SplitTree} (htree : tree.Follows table)
    (hvalues : ∀ name ∈ tree.tested, ∃ value, record.value? name = some value) :
    (∃ route, table.ReachesLeaf record tree.id route) ∨ table.Stalls record tree.id := by
  induction tree with
  | leaf id coefficient =>
      exact Or.inl ⟨⟨[], coefficient⟩, id, ⟨.here, by simp⟩, resolve_eq_leaf_iff.mp htree⟩
  | branch id column threshold left right ihleft ihright =>
      obtain ⟨row, hrow, hlow, hhigh, rfl, rfl⟩ := resolve_eq_split_iff.mp htree.1
      simp only [tested, List.mem_cons, List.mem_append, forall_eq_or_imp] at hvalues
      obtain ⟨⟨value, hvalue⟩, hbelow⟩ := hvalues
      -- A comparison with what is not a number fails on both sides; any other holds on one of them.
      by_cases hnan : value.isNaN = true ∨ row.threshold.isNaN = true
      · exact Or.inr ⟨[], id, row, value, ⟨.here, by simp⟩, hrow, hvalue, hnan⟩
      · simp only [not_or, Bool.not_eq_true] at hnan
        cases hside : Comparison.atMost.holds value row.threshold with
        | true =>
            have hturn := (isTaken_turn hvalue .atMost).trans hside
            exact reachesLeaf_or_stalls_of_turn .atMost hrow hlow hturn
              (ihleft htree.2.1 fun name hname => hbelow name (Or.inl hname))
        | false =>
            have hturn : (row.turn .above).isTaken record = true := by
              rw [isTaken_turn hvalue, Comparison.holds_above_eq hnan.1 hnan.2, hside]
              rfl
            exact reachesLeaf_or_stalls_of_turn .above hrow hhigh hturn
              (ihright htree.2.2 fun name hname => hbelow name (Or.inr hname))

end SplitTree

/-! ### Terms of a branch expression -/

theorem Expr.mentions_ofTerms (terms : List Expr) :
    (Expr.ofTerms terms).mentions = Expr.mentionsAll terms := by
  unfold ofTerms
  split
  · simp [mentionsAll]
  · rw [mentions]

namespace SplitTable

variable {table : SplitTable} {node : NodeId} {expression : Expr}

/-- A branch expression that exists holds the terms of a tree that follows the table. -/
theorem exists_follows_of_branchExpression
    (h : table.branchExpression node [] = .ok expression) :
    ∃ tree : SplitTree, tree.Follows table ∧ tree.id = node ∧
      expression.summands = tree.routes.map (Route.term []) ∧
      ∀ name, name ∈ expression.columns ↔ name ∈ tree.tested := by
  rw [branchExpression_eq_map] at h
  cases hunfold : table.unfold [] node with
  | error defect => simp [hunfold, Except.map] at h
  | ok tree =>
      rw [hunfold] at h
      obtain rfl := Except.ok.inj h
      obtain ⟨hfollows, hid⟩ := follows_of_unfold hunfold
      refine ⟨tree, hfollows, hid, ?_, fun name => ?_⟩
      · rw [SplitTree.summands_expression, SplitTree.terms_eq]
      · rw [Expr.mem_columns, SplitTree.expression_eq, Expr.mentions_ofTerms,
          SplitTree.mem_mentionsAll_terms]
        simp [Expr.mentionsAll]

/-- Every record with values for the columns of a branch expression comes to a leaf occurrence, and
selects its term and no other one, or to a comparison with something that is not a number, and
selects no term. -/
theorem branchExpression_selects (hbuilt : table.branchExpression node [] = .ok expression)
    (hvalues : ∀ name ∈ expression.columns, ∃ value, record.value? name = some value) :
    ((∃ route, table.ReachesLeaf record node route) ∨ table.Stalls record node) ∧
    (∀ route, table.ReachesLeaf record node route →
      expression.summands.filter (Expr.isSelected record) = [route.term []]) ∧
    (table.Stalls record node → expression.summands.filter (Expr.isSelected record) = []) := by
  obtain ⟨tree, htree, rfl, hsummands, hcolumns⟩ := exists_follows_of_branchExpression hbuilt
  have hselected : expression.summands.filter (Expr.isSelected record) =
      (tree.routes.filter (Route.isTaken record)).map (Route.term []) := by
    rw [hsummands, List.filter_map]
    congr 1
    exact List.filter_congr fun route _ => route.isSelected_term
  refine ⟨?_, fun route hreaches => ?_, fun hstalls => ?_⟩
  · exact htree.reachesLeaf_or_stalls fun name hname => hvalues name ((hcolumns name).mpr hname)
  · rw [hselected, htree.filter_routes_of_reachesLeaf hreaches]
    rfl
  · rw [hselected, htree.filter_routes_of_stalls hstalls]
    rfl

/-- A record of the given age. -/
def ageRecord (age : Float) : Record where
  index := 0
  value? name := if name = "age" then some age else some 1

/-- Of five terms an old record selects one, though the others hold its leaf once more, and a young
record selects none. -/
theorem branchExpression_selects_sharedTable : ∃ expression,
    sharedTable.branchExpression 1 [] = .ok expression ∧
    (expression.summands.filter (Expr.isSelected (ageRecord 50))) =
      [.product [.coefficient (-0.25), .indicator "age" .above 40, .indicator "sex" .above 0]] ∧
    expression.summands.filter (Expr.isSelected (ageRecord 30)) = [] := by
  -- The third node occurs twice, below the root and below the second node, whose threshold is not a
  -- number.
  have hunfold : ∃ tree, sharedTable.unfold [] 1 = .ok tree := by
    refine ⟨.branch 1 "age" 40
      (.branch 2 "age" (0 / 0) (.leaf 4 0.5)
        (.branch 3 "sex" 0 (.leaf 4 0.5) (.leaf 5 (-0.25))))
      (.branch 3 "sex" 0 (.leaf 4 0.5) (.leaf 5 (-0.25))), ?_⟩
    decide +kernel
  obtain ⟨tree, hunfold⟩ := hunfold
  have hbuilt : sharedTable.branchExpression 1 [] = .ok (tree.expression []) := by
    rw [branchExpression_eq_map, hunfold]
    rfl
  have hvalues : ∀ age, ∀ name ∈ (tree.expression []).columns,
      ∃ value, (ageRecord age).value? name = some value := by
    intro age name _
    by_cases hname : name = "age" <;> simp [ageRecord, hname]
  have hrow₁ : sharedTable.row? 1 = some ⟨1, 1, some 2, some 3, "age", 40⟩ := by decide +kernel
  refine ⟨_, hbuilt, ?_, ?_⟩
  · have hrow₃ : sharedTable.row? 3 = some ⟨1, 3, some 4, some 5, "sex", 0⟩ := by decide +kernel
    have hleaf : sharedTable.IsLeaf 5 (-0.25) := ⟨by decide, by decide +kernel⟩
    have hleads := Leads.down .above hrow₁ rfl (.down .above hrow₃ rfl .here)
    exact (branchExpression_selects hbuilt (hvalues 50)).2.1 ⟨_, -0.25⟩
      ⟨5, ⟨hleads, by decide +kernel⟩, hleaf⟩
  · have hrow₂ : sharedTable.row? 2 = some ⟨1, 2, some 4, some 3, "age", 0 / 0⟩ := by
      decide +kernel
    have hleads := Leads.down .atMost hrow₁ rfl .here
    exact (branchExpression_selects hbuilt (hvalues 30)).2.2
      ⟨_, 2, _, 30, ⟨hleads, by decide +kernel⟩, hrow₂, rfl, Or.inr (by decide +kernel)⟩

end SplitTable

end ItemScoring
