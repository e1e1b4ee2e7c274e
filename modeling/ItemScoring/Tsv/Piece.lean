/-!
# Pieces of a data file

A data file is cut into lines and fields before it is read as text.  The cuts look
at four bytes, none of which occurs within a longer character, so that a place
which is no text does no harm unless it has to be read.
-/

namespace ItemScoring.Tsv

/-- A piece of a data file. -/
abbrev Piece := List UInt8

/-- The byte between fields. -/
def tab : UInt8 := 0x09

/-- The byte behind a line. -/
def lineFeed : UInt8 := 0x0a

/-- The byte that may stand in front of a line feed. -/
def carriageReturn : UInt8 := 0x0d

/-- The byte around a field. -/
def quote : UInt8 := 0x22

/-! ### Carriage returns -/

/-- Drops a carriage return at the end. -/
def dropReturn (piece : Piece) : Piece :=
  if piece.getLast? = some carriageReturn then piece.dropLast else piece

/-- Drops the carriage return of a line break; a lone one stays. -/
def trimLine (line : Piece) : Piece :=
  if 1 < line.length then dropReturn line else line

/-! ### Quotes -/

/-- Whether a piece starts with a quote. -/
def isQuoted (piece : Piece) : Bool := piece.head? == some quote

/-- Whether a piece starts and ends with a quote, not the same one. -/
def isEnclosed (piece : Piece) : Bool :=
  1 < piece.length && isQuoted piece && piece.getLast? == some quote

/-- Drops the first and the last byte. -/
def inner (piece : Piece) : Piece := piece.tail.dropLast

/-- What stands between the quotes of a field.  The last byte of a quoted field
counts as its closing quote, whatever it is, and a lone quote is not quoted. -/
def strip (field : Piece) : Piece :=
  if 1 < field.length ∧ isQuoted field then inner field else field

end ItemScoring.Tsv
