import ItemScoring.Log
import ItemScoring.Model.Error
import ItemScoring.Model.Tables
import ItemScoring.Tree.ItemTree

/-!
# Validated models

`Model.ofTables` accepts tables in which every number is finite, every row
belongs to an item, nothing is given twice, and every item has either an offset
or leaf coefficients whose split rows make up a tree.  The result lists the
items with their trees; it keeps the tables for writing the model back.

Rows are checked before items, table by table and row by row, so that an error
about a whole item means that all rows are in order.
-/

namespace ItemScoring

/-- How the intercept of an item is formed. -/
inductive Intercept
  /-- By the subgroup that the tree of the item puts a record into: the item
  functions differently across subgroups. -/
  | dif (tree : ItemTree)
  | flat (offset : Float)
deriving Repr, DecidableEq

/-- One item of a model. -/
structure Item where
  /-- The number of the item, counted from one. -/
  number : Nat
  label : String
  slope : Float
  intercept : Intercept
deriving Repr, DecidableEq

namespace Item

/-- The tree of the item, if it has one. -/
def tree? (item : Item) : Option ItemTree :=
  match item.intercept with
  | .dif tree => some tree
  | .flat _ => none

/-- Whether the item functions differently across subgroups. -/
def isDif (item : Item) : Bool := item.tree?.isSome

/-- The columns that the tree of the item splits on. -/
def columns (item : Item) : List String :=
  match item.intercept with
  | .dif tree => tree.columns
  | .flat _ => []

end Item

/-- A validated model. -/
structure Model where
  tables : ModelTables
  items : List Item
deriving Repr, DecidableEq

namespace ModelTables

/-! ### Checks of rows -/

/-- Every row must belong to an item. -/
def checkItem (itemCount item : Nat) : Except ModelError Unit :=
  if item = 0 ∨ itemCount < item then .error (.itemOutOfRange item itemCount) else .ok ()

/-- Every parameter must be finite. -/
def checkFinite (parameter : Parameter) (value : Float) : Except ModelError Unit :=
  if value.isFinite then .ok () else .error (.nonFiniteValue parameter)

/-- Checks slopes, the first of which belongs to the item `number`. -/
def checkSlopes (number : Nat) : List Float → Except ModelError Unit
  | [] => .ok ()
  | slope :: rest => do
    checkFinite (.slope number) slope
    checkSlopes (number + 1) rest

/-- Labels, if given, must be as many as the items. -/
def checkLabels (itemCount : Nat) : Option (List String) → Except ModelError Unit
  | none => .ok ()
  | some labels =>
    if labels.length = itemCount then .ok ()
    else .error (.labelCountMismatch labels.length itemCount)

/-- Checks leaf rows, given the leaves of the rows before. -/
def checkLeaves (itemCount : Nat) (earlier : List (Nat × NodeId)) :
    List LeafRow → Except ModelError Unit
  | [] => .ok ()
  | row :: rest => do
    checkItem itemCount row.item
    checkFinite (.coefficient row.node row.item) row.coefficient
    if (row.item, row.node) ∈ earlier then throw (.duplicateLeaf row.item row.node)
    checkLeaves itemCount ((row.item, row.node) :: earlier) rest

/-- Checks offset rows, given the items of the rows before. -/
def checkOffsets (itemCount : Nat) (earlier : List Nat) : List OffsetRow → Except ModelError Unit
  | [] => .ok ()
  | row :: rest => do
    checkItem itemCount row.item
    checkFinite (.offset row.item) row.offset
    if row.item ∈ earlier then throw (.duplicateOffset row.item)
    checkOffsets itemCount (row.item :: earlier) rest

/-- Checks split rows. -/
def checkSplits (itemCount : Nat) : List Split → Except ModelError Unit
  | [] => .ok ()
  | row :: rest => do
    checkItem itemCount row.item
    checkFinite (.threshold row.number row.item) row.threshold
    checkSplits itemCount rest

variable (tables : ModelTables)

/-- Everything that is checked row by row. -/
def checkRows : Except ModelError Unit := do
  checkSlopes 1 tables.slopes
  checkLabels tables.itemCount tables.labels
  checkLeaves tables.itemCount [] tables.leaves
  checkOffsets tables.itemCount [] tables.offsets
  checkSplits tables.itemCount tables.splits

/-! ### Items -/

/-- The intercept of an item: an item has leaf rows or an offset, and not both. -/
def interceptOf (item : Nat) : Except ModelError Intercept :=
  match tables.leavesOf item, tables.offsetOf? item with
  | _ :: _, some _ => .error (.conflictingItem item)
  | [], none => .error (.missingItemCoefficients item)
  | [], some row => .ok (.flat row.offset)
  | _ :: _, none =>
    match ItemTree.ofRows (tables.splitsOf item) (tables.coefficientsOf item) with
    | .ok tree => .ok (.dif tree)
    | .error defect => .error (.invalidTree item defect)

/-- The items with the given slopes, the first of which has the number `number`. -/
def itemsFrom (number : Nat) : List Float → Except ModelError (List Item)
  | [] => .ok []
  | slope :: rest => do
    let intercept ← tables.interceptOf number
    let others ← itemsFrom (number + 1) rest
    return { number, label := tables.labelOf number, slope, intercept } :: others

/-! ### The log -/

/-- What the log says about an item: the size of its tree, or that it has split rows but no tree
that would use them. -/
def entriesOf (item : Nat) : Intercept → List LogEntry
  | .dif tree => [⟨.debug, s!"Item {item}: {tree.leafCount} leaves, depth {tree.depth}"⟩]
  | .flat _ =>
    match (tables.splitsOf item).length with
    | 0 => []
    | unused => [⟨.warn, s!"Item {item} has no DIF coefficients; " ++
        s!"ignoring its {unused} split row(s)."⟩]

/-- What the log says about the items with the given slopes, the first of which has the number
`number`, up to the first that is refused. -/
def entriesFrom (number : Nat) : List Float → List LogEntry
  | [] => []
  | _ :: rest =>
    match tables.interceptOf number with
    | .error _ => []
    | .ok intercept => tables.entriesOf number intercept ++ entriesFrom (number + 1) rest

/-- What the log says about the tables; nothing if the checks of rows end before the first item. -/
def log : List LogEntry :=
  match tables.checkRows with
  | .error _ => []
  | .ok () => tables.entriesFrom 1 tables.slopes

end ModelTables

namespace Model

/-- The model with the given tables. -/
def ofTables (tables : ModelTables) : Except ModelError Model := do
  tables.checkRows
  let items ← tables.itemsFrom 1 tables.slopes
  return { tables, items }

variable (model : Model)

/-- The number of items. -/
def itemCount : Nat := model.items.length

/-- The number of items that function differently across subgroups. -/
def difCount : Nat := model.items.countP Item.isDif

/-- The columns that any tree splits on, each once, in item order. -/
def splitColumns : List String := (model.items.flatMap Item.columns).eraseDups

/-- What the log says about the tables of the model. -/
def log : List LogEntry := model.tables.log

end Model

end ItemScoring
