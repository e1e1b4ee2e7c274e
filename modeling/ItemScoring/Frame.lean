/-!
# Frames

A frame is what a data file holds: named columns of cells, of which every column
is of one kind and every cell may be empty.  Frames are carried from the input to
the output; computing is done on a `Dataset` of the columns that are needed.

Names are distinct and columns are equally high.  Both belong to the type:
`Frame.ofColumns` checks them, and `Frame.withColumn` keeps them.
-/

namespace ItemScoring

/-- The kinds of cells. -/
inductive CellKind
  | boolean
  | integer
  | float
  | text
deriving Repr, DecidableEq

namespace CellKind

/-- What a cell that is not empty holds. -/
def Value : CellKind → Type
  | boolean => Bool
  | integer => Int
  | float => Float
  | text => String

end CellKind

/-- A named column of cells of one kind. -/
structure FrameColumn where
  name : String
  kind : CellKind
  /-- The cells from top to bottom; `none` is an empty cell. -/
  cells : List (Option kind.Value)

namespace FrameColumn

/-- The number of cells. -/
def height (column : FrameColumn) : Nat := column.cells.length

/-- The column stretched to a height: a column of that height as it is, a single
cell as often as needed. -/
def stretch? (height : Nat) (column : FrameColumn) : Option FrameColumn :=
  match column with
  | { name, kind, cells } =>
    if cells.length = height then some { name, kind, cells }
    else match cells with
      | [cell] => some { name, kind, cells := List.replicate height cell }
      | _ => none

theorem height_of_stretch? {height : Nat} {column stretched : FrameColumn}
    (h : column.stretch? height = some stretched) : stretched.height = height := by
  unfold stretch? at h
  split at h
  split at h
  · next hlength => cases h; exact hlength
  · split at h
    · cases h; exact List.length_replicate
    · cases h

end FrameColumn

/-- Why columns do not make up a frame. -/
inductive FrameError
  | repeatedName (names : List String)
  /-- A column is higher or lower than the frame. -/
  | heightMismatch (column : String) (found expected : Nat)
deriving Repr, DecidableEq

namespace FrameError

/-- The wording of the error. -/
def message : FrameError → String
  | repeatedName names => "the names of the columns repeat: " ++ ", ".intercalate names
  | heightMismatch column found expected =>
    s!"column '{column}' has {found} cells, but the frame has {expected} rows"

end FrameError

/-- Named columns of equal height. -/
structure Frame where
  columns : List FrameColumn
  height : Nat
  nodup_names : (columns.map FrameColumn.name).Nodup
  height_eq : ∀ column ∈ columns, column.height = height

namespace Frame

/-- The frame of the given columns and height. -/
def ofColumns (height : Nat) (columns : List FrameColumn) : Except FrameError Frame :=
  match h : columns.find? fun column => column.height != height with
  | some column => .error (.heightMismatch column.name column.height height)
  | none =>
    if distinct : (columns.map FrameColumn.name).Nodup then
      .ok {
        columns
        height
        nodup_names := distinct
        height_eq := by simpa using h }
    else .error (.repeatedName (columns.map FrameColumn.name))

variable (frame : Frame)

/-- The number of columns. -/
def width : Nat := frame.columns.length

/-- The names of the columns, in order. -/
def names : List String := frame.columns.map FrameColumn.name

/-- The column of a name. -/
def column? (name : String) : Option FrameColumn :=
  frame.columns.find? fun column => column.name = name

/-- Puts a column in the place of the one with its name, or behind all columns if
there is none. -/
def place (column : FrameColumn) : List FrameColumn → List FrameColumn
  | [] => [column]
  | first :: rest =>
    if first.name = column.name then column :: rest else first :: place column rest

theorem mem_place {column other : FrameColumn} {columns : List FrameColumn}
    (h : other ∈ place column columns) : other = column ∨ other ∈ columns := by
  induction columns with
  | nil => simpa [place] using h
  | cons first rest ih =>
    unfold place at h
    split at h
    · rcases List.mem_cons.1 h with rfl | hrest
      · exact .inl rfl
      · exact .inr (List.mem_cons_of_mem _ hrest)
    · rcases List.mem_cons.1 h with rfl | hrest
      · exact .inr List.mem_cons_self
      · exact (ih hrest).imp_right (List.mem_cons_of_mem _)

theorem nodup_names_place {column : FrameColumn} {columns : List FrameColumn}
    (h : (columns.map FrameColumn.name).Nodup) :
    ((place column columns).map FrameColumn.name).Nodup := by
  induction columns with
  | nil => simp [place]
  | cons first rest ih =>
    obtain ⟨hfirst, hrest⟩ := List.nodup_cons.1 h
    unfold place
    split
    · next hname => exact List.nodup_cons.2 ⟨hname ▸ hfirst, hrest⟩
    · next hname =>
      refine List.nodup_cons.2 ⟨fun hmem => ?_, ih hrest⟩
      obtain ⟨other, hother, hsame⟩ := List.mem_map.1 hmem
      rcases mem_place hother with rfl | hother
      · exact hname hsame.symm
      · exact hfirst (hsame ▸ List.mem_map_of_mem hother)

/-- The frame with a column put in place.  A column of one cell is stretched to
the height of the frame. -/
def withColumn (column : FrameColumn) : Except FrameError Frame :=
  match h : column.stretch? frame.height with
  | none => .error (.heightMismatch column.name column.height frame.height)
  | some stretched =>
    .ok {
      columns := place stretched frame.columns
      height := frame.height
      nodup_names := nodup_names_place frame.nodup_names
      height_eq := fun other hother => by
        rcases mem_place hother with rfl | hother
        · exact FrameColumn.height_of_stretch? h
        · exact frame.height_eq other hother }

end Frame

end ItemScoring
