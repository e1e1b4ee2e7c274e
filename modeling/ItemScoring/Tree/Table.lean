import ItemScoring.Tree.Split

/-!
# Looking up nodes in a split table

A `SplitTable` says what every node number stands for: a leaf with its
coefficient, or a split with both children (`SplitTable.resolve`).  Numbers
declared as leaves take precedence over rows, and of several rows with one
number the first counts.

Walks over a table end because each step meets a number that the table knows
and that was not met before; `unmet` counts what is left.
-/

namespace ItemScoring

/-- Rows and leaves among which node numbers are looked up. -/
structure SplitTable where
  splits : List Split
  leafIds : List NodeId
  coefficients : Coefficients

/-- What a node number stands for. -/
inductive Node
  | leaf (coefficient : Float)
  | split (column : String) (threshold : Float) (left right : NodeId)
deriving Repr, DecidableEq

/-- The role of a node in a tree. -/
inductive NodeKind
  | internal (left right : NodeId)
  | leaf (coefficient : Float)
deriving Repr, DecidableEq

/-- The role that a node has by what its number stands for. -/
def Node.kind : Node → NodeKind
  | leaf coefficient => .leaf coefficient
  | split _ _ left right => .internal left right

namespace SplitTable

variable (table : SplitTable)

/-- What the node number stands for, or why it stands for nothing. -/
def resolve (node : NodeId) : Except TreeError Node :=
  if node ∈ table.leafIds then
    match table.coefficients[node]? with
    | some coefficient => .ok (.leaf coefficient)
    | none => .error (.missingCoefficient node)
  else
    match table.splits.find? (·.number == node) with
    | none => .error (.splitNotFound node)
    | some row =>
      match row.left, row.right with
      | some left, some right => .ok (.split row.column row.threshold left right)
      | _, _ => .error (.incompleteSplit node)

/-- The numbers of all rows. -/
def splitNumbers : List NodeId := table.splits.map Split.number

/-- The numbers of all rows and leaves. -/
def known : List NodeId := table.splitNumbers ++ table.leafIds

variable {table}

/-- What resolves to a split is the number of a row. -/
theorem mem_splitNumbers_of_resolve {node : NodeId} {column : String} {threshold : Float}
    {left right : NodeId} (h : table.resolve node = .ok (.split column threshold left right)) :
    node ∈ table.splitNumbers := by
  unfold resolve at h
  split at h
  · split at h <;> simp at h
  · split at h
    · simp at h
    next row hrow =>
      have hnumber := List.find?_some hrow
      simp only [beq_iff_eq] at hnumber
      exact List.mem_map.mpr ⟨row, List.mem_of_find?_eq_some hrow, hnumber⟩

/-- What resolves to a leaf was declared as one. -/
theorem mem_leafIds_of_resolve {node : NodeId} {coefficient : Float}
    (h : table.resolve node = .ok (.leaf coefficient)) : node ∈ table.leafIds := by
  unfold resolve at h
  split at h
  · assumption
  · split at h
    · simp at h
    · split at h <;> simp at h

/-- What resolves is known. -/
theorem mem_known_of_resolve {node : NodeId} {meaning : Node}
    (h : table.resolve node = .ok meaning) : node ∈ table.known := by
  cases meaning with
  | leaf => exact List.mem_append_right _ (mem_leafIds_of_resolve h)
  | split => exact List.mem_append_left _ (mem_splitNumbers_of_resolve h)

end SplitTable

/-! ### What is left to meet -/

/-- How many entries of `known` have not been met. -/
def unmet (known met : List NodeId) : Nat := known.countP (· ∉ met)

theorem unmet_cons (first : NodeId) (rest met : List NodeId) :
    unmet (first :: rest) met = unmet rest met + if first ∈ met then 0 else 1 := by
  by_cases h : first ∈ met <;> simp [unmet, h]

/-- Meeting one more number leaves no more to meet. -/
theorem unmet_le (known met : List NodeId) (node : NodeId) :
    unmet known (node :: met) ≤ unmet known met :=
  List.countP_mono_left fun id _ h => by simp_all

/-- Meeting a known number for the first time leaves fewer to meet. -/
theorem unmet_lt {known met : List NodeId} {node : NodeId} (hknown : node ∈ known)
    (hfresh : node ∉ met) : unmet known (node :: met) < unmet known met := by
  induction known with
  | nil => simp at hknown
  | cons first rest ih =>
    rw [unmet_cons, unmet_cons]
    rcases List.mem_cons.mp hknown with rfl | hrest
    · have := unmet_le rest met node
      simp only [List.mem_cons_self, if_true, hfresh, if_false]
      omega
    · have := ih hrest
      by_cases hmet : first ∈ met
      · simp only [List.mem_cons_of_mem node hmet, hmet, if_true]
        omega
      · simp only [hmet, if_false]
        split <;> omega

end ItemScoring
