import ItemScoring.Tsv.Piece

/-!
# Lines and blocks of a data file

A line feed ends a line, except behind an odd number of quotes in the same line.
Every quote counts, wherever it stands.

Lines are read in blocks.  A block is a run of whole lines that fit into its size,
and what the last line feed leaves behind is a block of its own.
-/

namespace ItemScoring.Tsv

/-! ### Lines -/

/-- The lines of a text, without their line feeds, and what is left behind the
last line feed.  `odd` tells whether the first line has an odd number of quotes in
front of the text. -/
def linesFrom (odd : Bool) : Piece → List Piece × Piece
  | [] => ([], [])
  | byte :: bytes =>
    if byte = lineFeed ∧ ¬ odd then
      let (lines, rest) := linesFrom false bytes
      ([] :: lines, rest)
    else
      match linesFrom (odd != (byte == quote)) bytes with
      | ([], rest) => ([], byte :: rest)
      | (line :: lines, rest) => ((byte :: line) :: lines, rest)

/-- The lines of a text, and what is left behind the last one. -/
def cutLines (text : Piece) : List Piece × Piece := linesFrom false text

/-- The text of lines, with their line feeds. -/
def joinLines (lines : List Piece) : Piece := lines.flatMap fun line => line ++ [lineFeed]

/-! ### Blocks -/

/-- The size of the first block in bytes. -/
def blockSize : Nat := 4096

/-- A size, doubled until a line of the given length fits. -/
def growTo (length size : Nat) : Nat :=
  if 0 < size ∧ size < length then growTo length (2 * size) else size
termination_by length - size

/-- What goes into a block of the given size, of which `room` bytes are free, and
the blocks behind it.  The size grows when a line alone does not fit, and stays so. -/
def groupsFrom (size room : Nat) : List Piece → List Piece × List (List Piece)
  | [] => ([], [])
  | line :: lines =>
    let length := line.length + 1
    if length ≤ room then
      let (group, groups) := groupsFrom size (room - length) lines
      (line :: group, groups)
    else
      let larger := growTo length size
      let (group, groups) := groupsFrom larger (larger - length) lines
      ([], (line :: group) :: groups)

/-- Lines in groups that fit into blocks. -/
def groups (lines : List Piece) : List (List Piece) :=
  let (group, groups) := groupsFrom blockSize blockSize lines
  if group.isEmpty then groups else group :: groups

/-- A run of lines that is read at a time. -/
structure Block where
  /-- The number of its lines. -/
  height : Nat
  /-- The bytes, line feeds included. -/
  text : Piece
deriving Repr, DecidableEq

namespace Block

/-- The block of whole lines. -/
def ofLines (lines : List Piece) : Block := { height := lines.length, text := joinLines lines }

/-- The blocks of a text. -/
def ofText (text : Piece) : List Block :=
  let (lines, rest) := cutLines text
  let blocks := (groups lines).map ofLines
  if rest.isEmpty then blocks else blocks ++ [{ height := 1, text := rest }]

end Block

end ItemScoring.Tsv
