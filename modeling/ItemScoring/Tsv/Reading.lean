import ItemScoring.Tsv.Cell
import ItemScoring.Tsv.Kind
import ItemScoring.Tsv.Line
import ItemScoring.Tsv.Row

/-!
# Reading data files

The first line of a data file names its columns, every other line is a row.  A
row that is too short ends in empty cells; one that is too long is refused.  The
first `sampleSize` lines settle the kinds of the columns, and then every cell has
to fit the kind of its column.
-/

namespace ItemScoring

/-- Why a data file cannot be read.  Rows are counted from one, without the line
of names. -/
inductive TsvError
  | compressed
  /-- There is not even a line of names. -/
  | noHeader
  /-- The file has a column of texts and is not written in UTF-8. -/
  | notText
  /-- From some row on, there are not as many rows as lines. -/
  | brokenRows (row found expected : Nat)
  | surplusFields (row found expected : Nat)
  /-- A field does not fit the kind of its column. -/
  | unfitField (row : Nat) (column : String) (kind : CellKind)
  | frame (error : FrameError)
deriving Repr, DecidableEq

namespace TsvError

/-- The name of a kind in messages. -/
def describeKind : CellKind → String
  | .boolean => "boolean"
  | .integer => "integer"
  | .float => "float"
  | .text => "text"

/-- The wording of the error. -/
def message : TsvError → String
  | compressed => "the file is compressed"
  | noHeader => "the file is empty"
  | notText => "the file is not written in UTF-8"
  | brokenRows row found expected =>
    s!"from row {row} on, quotes make {found} rows of {expected} lines"
  | surplusFields row found expected =>
    s!"row {row} has {found} fields, but there are {expected} columns"
  | unfitField row column kind =>
    s!"the field of column '{column}' in row {row} is not of the kind {describeKind kind}"
  | frame error => error.message

end TsvError

namespace Tsv

/-! ### Parts of a file -/

/-- The number of lines that settle the kinds of the columns. -/
def sampleSize : Nat := 100

/-- The first bytes of compressed files. -/
def compressions : List Piece := [
  [0x1f, 0x8b],
  [0x78, 0x01],
  [0x78, 0x9c],
  [0x78, 0xda],
  [0x28, 0xb5, 0x2f, 0xfd]]

/-- Whether a file is compressed.  Files of less than four bytes are not. -/
def isCompressed (content : Piece) : Bool :=
  4 ≤ content.length && compressions.any (·.isPrefixOf content)

/-- Drops a byte order mark. -/
def dropMark : Piece → Piece
  | 0xef :: 0xbb :: 0xbf :: text => text
  | text => text

/-- Drops the line breaks in front of the first line. -/
def dropBreaks (text : Piece) : Piece :=
  text.dropWhile fun byte => byte == lineFeed || byte == carriageReturn

/-- Puts a line feed at the end of a text that has none at all. -/
def closeLine (text : Piece) : Piece :=
  if text.contains lineFeed then text else text ++ [lineFeed]

/-- The first line of a text.  If quotes keep the line open, it is all of the text. -/
def headerOf (text : Piece) : Piece :=
  let (lines, rest) := cutLines (closeLine text)
  lines.headD rest

/-- The lines behind the first one that settle the kinds of the columns. -/
def samplesOf (text : Piece) : List Piece :=
  let (lines, rest) := cutLines text
  (if rest.isEmpty then lines else lines ++ [rest]).tail.take sampleSize

/-- What stands behind the first line. -/
def bodyOf (text : Piece) : Piece :=
  let (lines, rest) := cutLines text
  if lines.isEmpty then [] else joinLines lines.tail ++ rest

/-! ### Columns -/

/-- The name in a field of the first line.  Doubled quotes in it stay doubled, and
damaged places are marked. -/
def nameOf (field : Piece) : String := Text.repair (Text.decode (strip field))

/-- Numbers the repetitions of names, given the names in front. -/
def numberNames (earlier : List String) : List String → List String
  | [] => []
  | name :: rest =>
    let unique := match earlier.count name with
      | 0 => name
      | count + 1 => s!"{name}_duplicated_{count}"
    unique :: numberNames (name :: earlier) rest

/-- The names in the first line of a text. -/
def namesOf (text : Piece) : List String :=
  numberNames [] ((firstRow (trimLine (headerOf text))).fields.map nameOf)

/-- The kind of the field at a position, given the fields of the sample lines. -/
def kindAt (samples : List (Array Piece)) (position : Nat) : CellKind :=
  .joinAll (samples.filterMap fun fields => fields[position]?.bind suggestion?)

/-- The kinds of the fields from a position on, by the names of their columns. -/
def kindsFrom (samples : List (Array Piece)) (position : Nat) :
    List String → List (String × CellKind)
  | [] => []
  | name :: rest => (name, kindAt samples position) :: kindsFrom samples (position + 1) rest

/-- Puts the kind of a column in the place of its kind so far, or behind all
columns if it has none. -/
def assign (columns : List (String × CellKind)) (name : String) (kind : CellKind) :
    List (String × CellKind) :=
  match columns with
  | [] => [(name, kind)]
  | (first, old) :: rest =>
    if first = name then (name, kind) :: rest else (first, old) :: assign rest name kind

/-- The names and kinds of the columns.  A number behind a name can make it equal
to another one: they are a single column, of the kind that comes last. -/
def columnsOf (text : Piece) : List (String × CellKind) :=
  let samples := (samplesOf text).map fun line => (firstRow (trimLine line)).fields.toArray
  let kinds := kindsFrom samples 0 (namesOf text)
  kinds.foldl (fun columns (name, kind) => assign columns name kind) []

/-! ### Rows -/

/-- The cells of rows, of which none may have more than `width`.  The first one has
the number `row`. -/
def cellsOf (width row : Nat) : List Row → Except TsvError (List (Array Piece))
  | [] => .ok []
  | first :: rest => do
    let cells := first.cells
    if width < cells.length then .error (.surplusFields row cells.length width)
    return (cells.map dropReturn).toArray :: (← cellsOf width (row + 1) rest)

/-- The cells of the rows in blocks, the first of which has the number `row`. -/
def readBlocks (width row : Nat) : List Block → Except TsvError (List (Array Piece))
  | [] => .ok []
  | block :: rest => do
    let rows := cutRows block.text
    if rows.length ≠ block.height then .error (.brokenRows row rows.length block.height)
    let cells ← cellsOf width row rows
    return cells ++ (← readBlocks width (row + block.height) rest)

/-- Reads the cells of a column from top to bottom, the first of which is in the row
`row`. -/
def readCells (name : String) (kind : CellKind) (row : Nat) :
    List Piece → Except TsvError (List (Option kind.Value))
  | [] => .ok []
  | field :: rest =>
    match kind.read? field with
    | none => .error (.unfitField row name kind)
    | some cell => do return cell :: (← readCells name kind (row + 1) rest)

/-- Reads columns from the position `position` on. -/
def readColumns (rows : List (Array Piece)) (position : Nat) :
    List (String × CellKind) → Except TsvError (List FrameColumn)
  | [] => .ok []
  | (name, kind) :: rest => do
    let cells ← readCells name kind 1 (rows.map fun fields => fields.getD position [])
    return { name, kind, cells } :: (← readColumns rows (position + 1) rest)

/-- Whether a column holds texts. -/
def holdsTexts (columns : List (String × CellKind)) : Bool :=
  columns.any fun (_, kind) => kind == .text

/-- Whether a text is written in UTF-8. -/
def isWhole (text : Piece) : Bool := (Text.whole? (Text.decode text)).isSome

end Tsv

namespace Frame

open Tsv

/-- The frame in a data file.  Empty lines in front of the line of names do not
count.  In a file of a single column, where an empty line is a row, they do as soon
as rows are read: the first of them is left out instead of the line of names. -/
def ofTsv (content : ByteArray) : Except TsvError Frame := do
  let bytes := content.data.toList
  let whole := dropMark bytes
  let text := dropBreaks whole
  if isCompressed bytes then .error .compressed
  if text.isEmpty then .error .noHeader
  let columns := columnsOf text
  let body := bodyOf (if columns.length = 1 then whole else text)
  if holdsTexts columns ∧ ¬ isWhole body then .error .notText
  let rows ← readBlocks columns.length 1 (Block.ofText body)
  (ofColumns rows.length (← readColumns rows 0 columns)).mapError .frame

end Frame

end ItemScoring
