import Std.Data.TreeMap
import ItemScoring.Expr.Basic

/-!
# Datasets

A dataset is a sequence of named columns of equal length, with an index from
names to positions.  Columns are only ever appended (`Dataset.push`): nothing
replaces, moves or removes one, and an append that would repeat a name or break
the common length is refused and leaves the dataset as it was.

`Dataset.record` is the view of one row as a `Record`, the form in which
expressions read it.
-/

namespace ItemScoring

/-- A named column of numbers. -/
structure Column where
  name : String
  values : Array Float
deriving Repr, BEq

/-- Why a column cannot be appended. -/
inductive DatasetError
  | duplicateColumn (name : String)
  | lengthMismatch (column : String) (found expected : Nat)
deriving Repr, DecidableEq

namespace DatasetError

/-- The wording of the error. -/
def message : DatasetError → String
  | duplicateColumn name => s!"Column '{name}' already exists in the dataset."
  | lengthMismatch column found expected =>
    s!"Column '{column}' has {found} values, but the dataset has {expected} rows."

end DatasetError

/-- An ordered sequence of equally long, distinctly named columns. -/
structure Dataset where
  /-- The columns, oldest first. -/
  columns : Array Column
  /-- The position of each column by its name. -/
  index : Std.TreeMap String Nat

namespace Dataset

/-! ### Construction -/

/-- The dataset without columns. -/
def empty : Dataset where
  columns := #[]
  index := ∅

instance : Inhabited Dataset := ⟨empty⟩

variable (data : Dataset)

/-- The number of rows: the length of the first column, zero without columns. -/
def rowCount : Nat :=
  match data.columns[0]? with
  | some column => column.values.size
  | none => 0

/-- The number of columns. -/
def columnCount : Nat := data.columns.size

/-- The names of the columns, in order. -/
def names : List String := data.columns.toList.map Column.name

/-- Whether there is a column of this name. -/
def hasColumn (name : String) : Bool := data.index.contains name

/-- Appends a column.  A repeated name is reported before a wrong length; the
first column may have any length. -/
def push (column : Column) : Except DatasetError Dataset :=
  if data.hasColumn column.name then
    .error (.duplicateColumn column.name)
  else if 0 < data.columnCount ∧ column.values.size ≠ data.rowCount then
    .error (.lengthMismatch column.name column.values.size data.rowCount)
  else
    .ok {
      columns := data.columns.push column
      index := data.index.insert column.name data.columnCount }

/-- Appends columns one after the other, up to the first that is refused. -/
def pushAll (columns : List Column) : Except DatasetError Dataset :=
  columns.foldlM push data

/-- The dataset with the given columns, in their order. -/
def ofColumns (columns : List Column) : Except DatasetError Dataset :=
  empty.pushAll columns

/-! ### Queries -/

/-- The values of the column of this name. -/
def values? (name : String) : Option (Array Float) := do
  let position ← data.index[name]?
  let column ← data.columns[position]?
  return column.values

/-- The row at a position.  A row outside the dataset has no value in any
column. -/
def record (row : Nat) : Record where
  index := row
  value? name := do
    let values ← data.values? name
    values[row]?

/-- All rows, in order. -/
def records : List Record := (List.range data.rowCount).map data.record

/-! ### Equality and invariant -/

/-- Datasets are equal if their columns are, in names, order and values; values
compare as numbers, so that zeros are equal and a value that is not a number
equals nothing. -/
instance : BEq Dataset where
  beq first second := first.columns == second.columns

/-- The three parts of a dataset fit together: all columns have `rowCount`
values, and the index holds exactly the positions of the columns by name. -/
structure Consistent : Prop where
  sameLength : ∀ column ∈ data.columns, column.values.size = data.rowCount
  indexed : ∀ (name : String) (position : Nat), data.index[name]? = some position ↔
    (data.columns[position]?).map Column.name = some name

end Dataset

end ItemScoring
