import ItemScoring.Proofs.Sequence
import ItemScoring.Tsv.Reading

/-!
# What reading a data file yields

A data file is first taken apart into columns, each with a name and a kind, and rows of fields
(`Tsv.contentsOf`).  The frame that is read has these columns in order, and in each of them a cell
for every row, read from the field at the position of the column (`Frame.readFrom_of_ofTsv`).
-/

namespace ItemScoring

namespace Tsv

/-! ### Parts of a file -/

/-- The columns that a data file names, with their kinds, and the fields of its rows. -/
structure Contents where
  columns : List (String × CellKind)
  rows : List (Array Piece)

/-- The field of a row at the position of a column.  A row that is too short ends in empty ones. -/
def fieldAt (position : Nat) (fields : Array Piece) : Piece := fields.getD position []

/-- What stands in a data file, before its cells are read. -/
def contentsOf (content : ByteArray) : Except TsvError Contents := do
  let bytes := content.data.toList
  let whole := dropMark bytes
  let text := dropBreaks whole
  if isCompressed bytes then .error .compressed
  if text.isEmpty then .error .noHeader
  let columns := columnsOf text
  let body := bodyOf (if columns.length = 1 then whole else text)
  if holdsTexts columns ∧ ¬ isWhole body then .error .notText
  let rows ← readBlocks columns.length 1 (Block.ofText body)
  return { columns, rows }

/-! ### Reading columns -/

section Columns

variable {rows : List (Array Piece)} {columns : List (String × CellKind)} {read : List FrameColumn}
  {name : String} {kind : CellKind}

theorem readCells_eq_ok {row : Nat} {fields : List Piece} {cells : List (Option kind.Value)}
    (h : readCells name kind row fields = .ok cells) :
    List.Forall₂ (fun field cell => kind.read? field = some cell) fields cells := by
  induction fields generalizing row cells with
  | nil =>
      obtain rfl := Except.ok.inj h
      exact .nil
  | cons field rest ih =>
      rw [readCells] at h
      split at h
      · contradiction
      next cell hcell =>
        obtain ⟨others, hothers, h⟩ := bind_eq_ok.mp h
        obtain rfl := Except.ok.inj h
        exact .cons hcell (ih hothers)

/-- The column of the given name and kind holds what is read from the fields at a position. -/
def IsReadAt (rows : List (Array Piece)) (position : Nat) (name : String) (kind : CellKind)
    (column : FrameColumn) : Prop :=
  ∃ cells, column = ⟨name, kind, cells⟩ ∧
    List.Forall₂ (fun fields cell => kind.read? (fieldAt position fields) = some cell) rows cells

theorem readColumns_eq_ok {start : Nat} (h : readColumns rows start columns = .ok read) :
    read.map FrameColumn.name = columns.map Prod.fst ∧
      ∀ position name kind, columns[position]? = some (name, kind) →
        ∃ column, read[position]? = some column ∧
          IsReadAt rows (start + position) name kind column := by
  -- The position of a column counts from the first one, so it starts one later in the rest.
  induction columns generalizing start read with
  | nil =>
      obtain rfl := Except.ok.inj h
      simp
  | cons first rest ih =>
      obtain ⟨cells, hcells, h⟩ := bind_eq_ok.mp h
      obtain ⟨others, hothers, h⟩ := bind_eq_ok.mp h
      obtain rfl := Except.ok.inj h
      obtain ⟨hnames, hread⟩ := ih hothers
      refine ⟨by rw [List.map_cons, List.map_cons, hnames], fun position name kind hcolumn => ?_⟩
      cases position with
      | zero =>
          obtain rfl := Option.some.inj hcolumn
          exact ⟨_, rfl, cells, rfl, List.forall₂_map_left_iff.mp (readCells_eq_ok hcells)⟩
      | succ position =>
          obtain ⟨column, hplace, hcolumn⟩ := hread position name kind hcolumn
          rw [Nat.add_right_comm] at hcolumn
          exact ⟨column, hplace, hcolumn⟩

end Columns

end Tsv

namespace Frame

open Tsv (Contents IsReadAt contentsOf readColumns)

variable {frame : Frame}

/-- The rows of a file are read into columns, and those are put into a frame. -/
theorem ofTsv_eq (content : ByteArray) : ofTsv content = contentsOf content >>= fun contents =>
    readColumns contents.rows 0 contents.columns >>= fun columns =>
      (ofColumns contents.rows.length columns).mapError .frame := by
  simp only [ofTsv, contentsOf, error_bind, error_if_bind, bind_assoc, pure_bind]

theorem ofColumns_eq_ok {height : Nat} {columns : List FrameColumn}
    (h : ofColumns height columns = .ok frame) :
    frame.columns = columns ∧ frame.height = height := by
  unfold ofColumns at h
  split at h
  · contradiction
  · split at h
    · obtain rfl := Except.ok.inj h
      exact ⟨rfl, rfl⟩
    · contradiction

/-- The frame has the columns of a file, read from the fields of its rows. -/
structure ReadFrom (frame : Frame) (contents : Contents) : Prop where
  height_eq : frame.height = contents.rows.length
  names_eq : frame.names = contents.columns.map Prod.fst
  read : ∀ position name kind, contents.columns[position]? = some (name, kind) →
    ∃ column, frame.columns[position]? = some column ∧
      IsReadAt contents.rows position name kind column

theorem readFrom_of_ofTsv {content : ByteArray} (h : ofTsv content = .ok frame) :
    ∃ contents, contentsOf content = .ok contents ∧ frame.ReadFrom contents := by
  rw [ofTsv_eq] at h
  obtain ⟨contents, hcontents, h⟩ := bind_eq_ok.mp h
  obtain ⟨columns, hcolumns, h⟩ := bind_eq_ok.mp h
  obtain ⟨rfl, hheight⟩ := ofColumns_eq_ok (mapError_eq_ok.mp h)
  obtain ⟨hnames, hread⟩ := Tsv.readColumns_eq_ok hcolumns
  refine ⟨contents, hcontents, hheight, hnames, fun position name kind hcolumn => ?_⟩
  obtain ⟨column, hplace, hread⟩ := hread position name kind hcolumn
  exact ⟨column, hplace, Nat.zero_add position ▸ hread⟩

/-- Distinct names are the names of distinct columns of the file. -/
theorem ReadFrom.nodup_names {contents : Contents} (h : frame.ReadFrom contents) :
    (contents.columns.map Prod.fst).Nodup :=
  h.names_eq ▸ frame.nodup_names

end Frame

end ItemScoring
