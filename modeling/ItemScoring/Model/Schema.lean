import ItemScoring.Model.Tables
import ItemScoring.Text.Quoted
import ItemScoring.Toml.Writing

/-!
# The shape of a model file

A model file is a TOML document with the tables of a model as arrays of tables.
This file reads `ModelTables` off the entries of such a document
(`ModelTables.ofEntries`) and writes them as one (`ModelTables.document`).

Keys are looked at in document order, and the first value of a wrong kind is
reported; what is missing is reported after that, in the order of the fields.
Unknown keys are ignored, all tables but the slopes may be absent, and a row may
also be given as an array of its fields.
-/

namespace ItemScoring

/-! ### Errors -/

/-- What kind of value was asked for. -/
inductive Expectation
  | number
  | count
  | nodeNumber
  | text
  | list
  | leafRow
  | offsetRow
  | splitRow
deriving Repr, DecidableEq

namespace Expectation

/-- The words for what was asked for. -/
def describe : Expectation → String
  | number => "f64"
  | count => "usize"
  | nodeNumber => "u32"
  | text => "a string"
  | list => "a sequence"
  | leafRow => "struct LeafCoefficient"
  | offsetRow => "struct NoDifOffset"
  | splitRow => "struct SplitRecord"

/-- How many fields a row has; nothing else has fields. -/
def fieldCount : Expectation → Nat
  | leafRow => 3
  | offsetRow => 2
  | splitRow => 6
  | _ => 0

end Expectation

/-- Why the entries of a document are not the tables of a model. -/
inductive SchemaError
  | invalidType (found : Toml.Value) (expected : Expectation)
  /-- A number is out of range. -/
  | invalidValue (found : Int) (expected : Expectation)
  /-- A row given as an array is too short. -/
  | invalidLength (found : Nat) (expected : Expectation)
  | missingField (name : String)
deriving Repr

namespace SchemaError

/-- Numbers of the wrong kind are quoted with a point if they are finite. -/
def describeFloat (x : Float) : String :=
  let layout : Layout :=
    { positional := none, point := true, plus := false, tie := .up, nan := "NaN" }
  layout.render x

/-- The words for a value of the wrong kind. -/
def describe : Toml.Value → String
  | .text content => s!"string {Text.quote content}"
  | .integer n => s!"integer `{n}`"
  | .float x => s!"floating point `{describeFloat x}`"
  | .boolean b => s!"boolean `{b}`"
  | .array _ => "sequence"
  | .moment _ => "map"
  | .table _ => "map"

/-- The wording of the error. -/
def message : SchemaError → String
  | invalidType found expected =>
    s!"invalid type: {describe found}, expected {expected.describe}"
  | invalidValue found expected =>
    s!"invalid value: integer `{found}`, expected {expected.describe}"
  | invalidLength found expected =>
    s!"invalid length {found}, expected {expected.describe} with {expected.fieldCount} elements"
  | missingField name => s!"missing field `{name}`"

end SchemaError

namespace Schema

open Toml (Value Entries Document Section)

/-! ### Reading fields -/

/-- A number; integers will do. -/
def number : Value → Except SchemaError Float
  | .integer n => .ok (Binary64.ofInt n)
  | .float x => .ok x
  | found => .error (.invalidType found .number)

/-- A natural number below a bound. -/
def natural (expected : Expectation) (bound : Nat) : Value → Except SchemaError Nat
  | .integer n =>
    if 0 ≤ n ∧ n < bound then .ok n.toNat else .error (.invalidValue n expected)
  | found => .error (.invalidType found expected)

/-- The number of an item. -/
def item : Value → Except SchemaError Nat := natural .count UInt64.size

/-- The number of a node. -/
def node (found : Value) : Except SchemaError NodeId := do
  return (← natural .nodeNumber UInt32.size found).toUInt32

/-- A text. -/
def text : Value → Except SchemaError String
  | .text content => .ok content
  | found => .error (.invalidType found .text)

/-- A list of values of one kind. -/
def list {α : Type} (read : Value → Except SchemaError α) : Value → Except SchemaError (List α)
  | .array elements => elements.mapM read
  | found => .error (.invalidType found .list)

/-- A field that must be given. -/
def required {α : Type} (name : String) : Option α → Except SchemaError α
  | some value => .ok value
  | none => .error (.missingField name)

/-! ### Reading rows -/

/-- A row that may lack fields. -/
structure Draft where
  item : Option Nat := none
  node : Option NodeId := none
  value : Option Float := none
  left : Option NodeId := none
  right : Option NodeId := none
  column : Option String := none

/-- The fields of a draft. -/
inductive Field
  | item
  | node
  | value
  | left
  | right
  | column
deriving Repr, DecidableEq

/-- Fills in a field. -/
def Draft.set (draft : Draft) (found : Value) : Field → Except SchemaError Draft
  | .item => return { draft with item := some (← Schema.item found) }
  | .node => return { draft with node := some (← Schema.node found) }
  | .value => return { draft with value := some (← number found) }
  | .left => return { draft with left := some (← Schema.node found) }
  | .right => return { draft with right := some (← Schema.node found) }
  | .column => return { draft with column := some (← text found) }

/-- A kind of row: the names of its fields in their order, and how a draft becomes
a row. -/
structure RowShape (α : Type) where
  expected : Expectation
  fields : List (String × Field)
  finish : Draft → Except SchemaError α

/-- Children of a split may be absent. -/
def Field.isOptional : Field → Bool
  | .left => true
  | .right => true
  | _ => false

/-- Fills in fields from the elements of an array, the first of which has the
position `position`. -/
def RowShape.fillFrom {α : Type} (shape : RowShape α) (position : Nat) (draft : Draft) :
    List (String × Field) → List Value → Except SchemaError Draft
  | [], _ => .ok draft
  | (_, field) :: fields, found :: rest => do
    fillFrom shape (position + 1) (← draft.set found field) fields rest
  | (_, field) :: fields, [] =>
    if field.isOptional then fillFrom shape (position + 1) draft fields []
    else .error (.invalidLength position shape.expected)

/-- Fills in the field with the given name; unknown names are ignored. -/
def RowShape.fill {α : Type} (shape : RowShape α) (draft : Draft) :
    String × Value → Except SchemaError Draft
  | (name, found) =>
    match shape.fields.lookup name with
    | some field => draft.set found field
    | none => .ok draft

/-- Reads a row. -/
def RowShape.read {α : Type} (shape : RowShape α) : Value → Except SchemaError α
  | .table entries => do shape.finish (← entries.foldlM shape.fill {})
  | .array elements => do shape.finish (← shape.fillFrom 0 {} shape.fields elements)
  | .moment _ => shape.finish {}
  | found => .error (.invalidType found shape.expected)

/-- Leaf rows. -/
def leafRow : RowShape LeafRow where
  expected := .leafRow
  fields := [("item", .item), ("node", .node), ("coefficient", .value)]
  finish draft := do
    let item ← required "item" draft.item
    let node ← required "node" draft.node
    let coefficient ← required "coefficient" draft.value
    return { item, node, coefficient }

/-- Offset rows. -/
def offsetRow : RowShape OffsetRow where
  expected := .offsetRow
  fields := [("item", .item), ("offset", .value)]
  finish draft := do
    let item ← required "item" draft.item
    let offset ← required "offset" draft.value
    return { item, offset }

/-- Split rows. -/
def splitRow : RowShape Split where
  expected := .splitRow
  fields := [("item", .item), ("number", .node), ("left", .left), ("right", .right),
    ("variable", .column), ("threshold", .value)]
  finish draft := do
    let item ← required "item" draft.item
    let number ← required "number" draft.node
    let column ← required "variable" draft.column
    let threshold ← required "threshold" draft.value
    return { item, number, left := draft.left, right := draft.right, column, threshold }

/-! ### Reading tables -/

/-- Tables of which the slopes may still be missing. -/
structure TablesDraft where
  slopes : Option (List Float) := none
  labels : Option (List String) := none
  leaves : List LeafRow := []
  offsets : List OffsetRow := []
  splits : List Split := []

/-- Fills in the table with the given name; unknown names are ignored. -/
def TablesDraft.fill (draft : TablesDraft) : String × Value → Except SchemaError TablesDraft
  | ("slopes", found) => return { draft with slopes := some (← list number found) }
  | ("item_labels", found) => return { draft with labels := some (← list text found) }
  | ("dif_leaves", found) => return { draft with leaves := ← list leafRow.read found }
  | ("no_dif_offsets", found) => return { draft with offsets := ← list offsetRow.read found }
  | ("splits", found) => return { draft with splits := ← list splitRow.read found }
  | _ => .ok draft

end Schema

open Toml (Value Entries Document Section)

namespace ModelTables

/-- The tables that the entries of a document hold. -/
def ofEntries (entries : Entries) : Except SchemaError ModelTables := do
  let draft ← entries.foldlM Schema.TablesDraft.fill {}
  let slopes ← Schema.required "slopes" draft.slopes
  return {
    slopes
    labels := draft.labels
    leaves := draft.leaves
    offsets := draft.offsets
    splits := draft.splits }

/-! ### Writing tables -/

/-- A row as the section of an array of tables. -/
def rowSection (name : String) (fields : Entries) : Section where
  appends := true
  path := []
  name
  entries := fields.map fun (key, value) => ([], key, value)

/-- The entry that an empty table leaves in the preamble. -/
def emptyEntry (name : String) {α : Type} : List α → Entries
  | [] => [(name, .array [])]
  | _ :: _ => []

/-- The fields of a leaf row. -/
def leafFields (row : LeafRow) : Entries := [
  ("item", .integer row.item),
  ("node", .integer row.node.toNat),
  ("coefficient", .float row.coefficient)]

/-- The fields of an offset row. -/
def offsetFields (row : OffsetRow) : Entries := [
  ("item", .integer row.item),
  ("offset", .float row.offset)]

/-- The field of a child, if there is one. -/
def childField (name : String) : Option NodeId → Entries
  | some child => [(name, .integer child.toNat)]
  | none => []

/-- The fields of a split row. -/
def splitFields (row : Split) : Entries :=
  [("item", .integer row.item), ("number", .integer row.number.toNat)] ++
    childField "left" row.left ++ childField "right" row.right ++
    [("variable", .text row.column), ("threshold", .float row.threshold)]

/-- The entry with the labels, if there are any. -/
def labelEntry : Option (List String) → Entries
  | some labels => [("item_labels", .array (labels.map .text))]
  | none => []

variable (tables : ModelTables)

/-- The plain values of a model file: slopes and labels, and the tables without
rows. -/
def plainEntries : Entries :=
  [("slopes", .array (tables.slopes.map .float))] ++ labelEntry tables.labels ++
    emptyEntry "dif_leaves" tables.leaves ++
    emptyEntry "no_dif_offsets" tables.offsets ++
    emptyEntry "splits" tables.splits

/-- The tables as a document: plain values first, then a section per row. -/
def document : Document where
  preamble := tables.plainEntries.map fun (key, value) => ([], key, value)
  sections :=
    tables.leaves.map (rowSection "dif_leaves" ∘ leafFields) ++
      tables.offsets.map (rowSection "no_dif_offsets" ∘ offsetFields) ++
      tables.splits.map (rowSection "splits" ∘ splitFields)

end ModelTables

end ItemScoring
