import ItemScoring.Proofs.Tree.Following

/-!
# Occurrences of nodes

A table unfolds into a tree, which is infinite if a node is its own ancestor.  An occurrence of
a node in it is named by the turns on the way down (`SplitTable.Leads`), and occurrences are
ordered as a walk meets them that visits a node before its children and the left child before
the right one (`Turn.Earlier`).

An occurrence has a defect if the node is among its own ancestors, or if the table has no meaning
for it (`SplitTable.Defect`).  Of two occurrences with a defect one comes first, so there is at
most one first defect (`FirstDefect.unique`).
-/

namespace ItemScoring

/-! ### Turns -/

/-- The child of a row on one side of its threshold. -/
def Split.child? (row : Split) : Comparison → Option NodeId
  | .atMost => row.left
  | .above => row.right

/-- A turn to one side at a split. -/
structure Turn where
  node : NodeId
  column : String
  threshold : Float
  side : Comparison

/-- The turn to one side at a row. -/
def Split.turn (row : Split) (side : Comparison) : Turn where
  node := row.number
  column := row.column
  threshold := row.threshold
  side := side

namespace Turn

/-- The test that a record passes if it takes the turn. -/
def condition (turn : Turn) : Expr := .indicator turn.column turn.side turn.threshold

/-- The first turns lead to a node that is met before the one of the second turns: a node comes
before all below it, and all below its left child before its right child. -/
def Earlier : List Turn → List Turn → Prop :=
  List.Lex fun first second => first.side = .atMost ∧ second.side = .above

theorem earlier_cons_iff {turn : Turn} {first second : List Turn} :
    Earlier (turn :: first) (turn :: second) ↔ Earlier first second := by
  constructor
  · intro h
    cases h with
    | cons h => exact h
    | rel hsides => exact absurd (hsides.1.symm.trans hsides.2) (by decide)
  · exact .cons

theorem not_above_earlier {row : Split} {first second : List Turn} :
    ¬ Earlier (row.turn .above :: first) (row.turn .atMost :: second) := by
  rintro (_ | ⟨h, -⟩)
  contradiction

/-- The nodes above the end of the turns, nearest first, if `path` are those above their start. -/
def above (path : List NodeId) (turns : List Turn) : List NodeId :=
  (turns.map Turn.node).reverse ++ path

@[simp] theorem above_cons (path : List NodeId) (turn : Turn) (turns : List Turn) :
    above path (turn :: turns) = above (turn.node :: path) turns := by
  simp [above]

end Turn

namespace SplitTable

/-! ### What numbers stand for -/

/-- The row that a number stands for: the first one with it, unless the number is declared as a
leaf. -/
def row? (table : SplitTable) (node : NodeId) : Option Split :=
  if node ∈ table.leafIds then none else table.splits.find? (·.number == node)

/-- The number is a leaf with this coefficient. -/
structure IsLeaf (table : SplitTable) (node : NodeId) (coefficient : Float) : Prop where
  declared : node ∈ table.leafIds
  coefficient_eq : table.coefficients[node]? = some coefficient

/-- The number is a leaf with a coefficient or a row with both children. -/
inductive Stands (table : SplitTable) (node : NodeId) : Prop
  | leaf {coefficient : Float} (leaf : table.IsLeaf node coefficient)
  | split {row : Split} (row_eq : table.row? node = some row) (left : row.left.isSome = true)
      (right : row.right.isSome = true)

/-- Why the number stands for nothing: a leaf without a coefficient, neither a leaf nor a row, or
a row without one of its children. -/
inductive Faulty (table : SplitTable) (node : NodeId) : TreeError → Prop
  | coefficient (declared : node ∈ table.leafIds) (missing : table.coefficients[node]? = none) :
      Faulty table node (.missingCoefficient node)
  | row (undeclared : node ∉ table.leafIds) (missing : ∀ row ∈ table.splits, row.number ≠ node) :
      Faulty table node (.splitNotFound node)
  | child {row : Split} (row_eq : table.row? node = some row)
      (missing : row.left = none ∨ row.right = none) : Faulty table node (.incompleteSplit node)

variable {table : SplitTable} {node last : NodeId} {row : Split}

theorem number_of_row? (h : table.row? node = some row) : row.number = node := by
  unfold row? at h
  split at h
  · contradiction
  · simpa using List.find?_some h

/-- A number that is no leaf means what its row says. -/
theorem resolve_of_row? (h : table.row? node = some row) : table.resolve node =
    match row.left, row.right with
    | some left, some right => .ok (.split row.column row.threshold left right)
    | _, _ => .error (.incompleteSplit node) := by
  unfold row? at h
  split at h
  · contradiction
  next hdeclared =>
    cases hleft : row.left <;> cases hright : row.right <;>
      simp [resolve, hdeclared, h, hleft, hright]

theorem resolve_eq_leaf_iff {coefficient : Float} :
    table.resolve node = .ok (.leaf coefficient) ↔ table.IsLeaf node coefficient := by
  constructor
  · intro h
    have hdeclared := mem_leafIds_of_resolve h
    rw [resolve, if_pos hdeclared] at h
    split at h
    next found hfound =>
      simp only [Except.ok.injEq, Node.leaf.injEq] at h
      exact ⟨hdeclared, hfound.trans (congrArg some h)⟩
    · contradiction
  · rintro ⟨hdeclared, hfound⟩
    rw [resolve, if_pos hdeclared, hfound]

theorem IsLeaf.row?_eq_none {coefficient : Float} (h : table.IsLeaf node coefficient) :
    table.row? node = none :=
  if_pos h.declared

/-- Without a row a number is a declared leaf, or unknown. -/
theorem row?_eq_none_iff : table.row? node = none ↔
    node ∈ table.leafIds ∨ ∀ row ∈ table.splits, row.number ≠ node := by
  unfold row?
  split
  next hdeclared => simp [hdeclared]
  next hdeclared => simp [hdeclared]

theorem resolve_eq_split_iff {column : String} {threshold : Float} {left right : NodeId} :
    table.resolve node = .ok (.split column threshold left right) ↔
      ∃ row, table.row? node = some row ∧ row.left = some left ∧ row.right = some right ∧
        row.column = column ∧ row.threshold = threshold := by
  constructor
  · intro h
    cases hrow : table.row? node with
    | none =>
        obtain ⟨row, hmem, hnumber⟩ := List.mem_map.mp (mem_splitNumbers_of_resolve h)
        rcases row?_eq_none_iff.mp hrow with hdeclared | hunknown
        · rw [resolve, if_pos hdeclared] at h
          split at h <;> simp at h
        · exact absurd hnumber (hunknown row hmem)
    | some row =>
        rw [resolve_of_row? hrow] at h
        split at h
        next left' right' hleft hright =>
          simp only [Except.ok.injEq, Node.split.injEq] at h
          obtain ⟨hcolumn, hthreshold, rfl, rfl⟩ := h
          exact ⟨row, rfl, hleft, hright, hcolumn, hthreshold⟩
        · contradiction
  · rintro ⟨row, hrow, hleft, hright, rfl, rfl⟩
    rw [resolve_of_row? hrow, hleft, hright]

theorem resolve_eq_error_iff {e : TreeError} :
    table.resolve node = .error e ↔ table.Faulty node e := by
  constructor
  · intro h
    -- Without a row the node lacks a coefficient or is unknown; with one it lacks a child.
    cases hrow : table.row? node with
    | none =>
        rw [resolve] at h
        split at h
        next hdeclared =>
          split at h
          · contradiction
          next hmissing =>
            obtain rfl := Except.error.inj h
            exact .coefficient hdeclared hmissing
        next hdeclared =>
          have hunknown := (row?_eq_none_iff.mp hrow).resolve_left hdeclared
          rw [List.find?_eq_none.mpr (by simpa using hunknown)] at h
          obtain rfl := Except.error.inj h
          exact .row hdeclared hunknown
    | some row =>
        rw [resolve_of_row? hrow] at h
        split at h
        · contradiction
        next hchild =>
          obtain rfl := Except.error.inj h
          refine .child hrow ?_
          cases hleft : row.left with
          | none => exact Or.inl rfl
          | some left =>
              cases hright : row.right with
              | none => exact Or.inr rfl
              | some right => exact absurd hright (hchild left right hleft)
  · rintro (⟨hdeclared, hmissing⟩ | ⟨hdeclared, hunknown⟩ | ⟨hrow, hmissing⟩)
    · rw [resolve, if_pos hdeclared, hmissing]
    · rw [resolve, if_neg hdeclared, List.find?_eq_none.mpr (by simpa using hunknown)]
    · rw [resolve_of_row? hrow]
      rcases hmissing with hmissing | hmissing
      · rw [hmissing]
      · rw [hmissing]
        split
        · contradiction
        · rfl

theorem stands_iff : table.Stands node ↔ ∃ meaning, table.resolve node = .ok meaning := by
  constructor
  · rintro (hleaf | ⟨hrow, hleft, hright⟩)
    · exact ⟨_, resolve_eq_leaf_iff.mpr hleaf⟩
    · obtain ⟨left, hleft⟩ := Option.isSome_iff_exists.mp hleft
      obtain ⟨right, hright⟩ := Option.isSome_iff_exists.mp hright
      exact ⟨_, resolve_eq_split_iff.mpr ⟨_, hrow, hleft, hright, rfl, rfl⟩⟩
  · rintro ⟨meaning, hresolved⟩
    cases meaning with
    | leaf coefficient => exact .leaf (resolve_eq_leaf_iff.mp hresolved)
    | split column threshold left right =>
        obtain ⟨row, hrow, hleft, hright, -, -⟩ := resolve_eq_split_iff.mp hresolved
        exact .split hrow (by simp [hleft]) (by simp [hright])

/-! ### Occurrences -/

/-- The turns lead down from the first node to the last one. -/
inductive Leads (table : SplitTable) : NodeId → List Turn → NodeId → Prop
  | here {node : NodeId} : Leads table node [] node
  | down {node child last : NodeId} {row : Split} {turns : List Turn} (side : Comparison)
      (row_eq : table.row? node = some row) (child_eq : row.child? side = some child)
      (rest : Leads table child turns last) : Leads table node (row.turn side :: turns) last

/-- Nothing occurs below a number without a row. -/
theorem leads_of_row?_eq_none (hrow : table.row? node = none) {turns : List Turn} :
    table.Leads node turns last ↔ turns = [] ∧ last = node := by
  constructor
  · intro h
    cases h with
    | here => exact ⟨rfl, rfl⟩
    | down side row_eq => simp [hrow] at row_eq
  · rintro ⟨rfl, rfl⟩
    exact .here

/-- At a split there is the split itself, what is below its left child, and what is below its
right one. -/
theorem leads_of_children {low high : NodeId} (hrow : table.row? node = some row)
    (hlow : row.left = some low) (hhigh : row.right = some high) {turns : List Turn} :
    table.Leads node turns last ↔ (turns = [] ∧ last = node) ∨
      (∃ rest, turns = row.turn .atMost :: rest ∧ table.Leads low rest last) ∨
      ∃ rest, turns = row.turn .above :: rest ∧ table.Leads high rest last := by
  constructor
  · intro h
    cases h with
    | here => exact Or.inl ⟨rfl, rfl⟩
    | @down _ child _ other rest side row_eq child_eq hrest =>
        obtain rfl := Option.some.inj (hrow.symm.trans row_eq)
        cases side with
        | atMost =>
            obtain rfl := Option.some.inj (hlow.symm.trans child_eq)
            exact Or.inr (Or.inl ⟨rest, rfl, hrest⟩)
        | above =>
            obtain rfl := Option.some.inj (hhigh.symm.trans child_eq)
            exact Or.inr (Or.inr ⟨rest, rfl, hrest⟩)
  · rintro (⟨rfl, rfl⟩ | ⟨rest, rfl, hrest⟩ | ⟨rest, rfl, hrest⟩)
    · exact .here
    · exact .down .atMost hrow hlow hrest
    · exact .down .above hrow hhigh hrest

/-- Of two occurrences one comes first, or they are the same. -/
theorem Leads.earlier_or_eq {turns others : List Turn} {other : NodeId}
    (h : table.Leads node turns last) (h' : table.Leads node others other) :
    Turn.Earlier turns others ∨ Turn.Earlier others turns ∨ turns = others ∧ last = other := by
  induction h generalizing others with
  | here =>
      cases h' with
      | here => exact Or.inr (Or.inr ⟨rfl, rfl⟩)
      | down => exact Or.inl .nil
  | @down node child last row turns side row_eq child_eq rest ih =>
      cases h' with
      | here => exact Or.inr (Or.inl .nil)
      | @down _ child' _ row' turns' side' row_eq' child_eq' rest' =>
          obtain rfl := Option.some.inj (row_eq.symm.trans row_eq')
          -- Two ways part at the first node where they take different sides, or one ends before the
          -- other.
          by_cases hside : side = side'
          · subst hside
            obtain rfl := Option.some.inj (child_eq.symm.trans child_eq')
            rcases ih rest' with hlt | hgt | ⟨rfl, rfl⟩
            · exact Or.inl (.cons hlt)
            · exact Or.inr (Or.inl (.cons hgt))
            · exact Or.inr (Or.inr ⟨rfl, rfl⟩)
          · cases side with
            | atMost =>
                cases side' with
                | atMost => exact absurd rfl hside
                | above => exact Or.inl (.rel ⟨rfl, rfl⟩)
            | above =>
                cases side' with
                | atMost => exact Or.inr (Or.inl (.rel ⟨rfl, rfl⟩))
                | above => exact absurd rfl hside

end SplitTable

end ItemScoring
