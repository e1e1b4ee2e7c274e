import ItemScoring.Number.Layout
import ItemScoring.Toml.Document

/-!
# Writing TOML

A document is written one entry a line, and an empty line stands before every
section.  Strings are quoted so that they need the fewest escapes: plainly if
possible, then literally, then between three quotes.
-/

namespace ItemScoring.Toml

/-! ### Strings -/

/-- Whether a character has to be escaped wherever it stands.  Tabs and line ends
are left out, which some of the forms can hold. -/
def isControl (c : Char) : Bool := (c < ' ' ∨ c = '\x7f') ∧ c ≠ '\t' ∧ c ≠ '\n'

/-- Whether a quote occurs three times in a row. -/
def hasTriple (quote : Char) : List Char → Bool
  | a :: b :: c :: rest =>
    (a == quote && b == quote && c == quote) || hasTriple quote (b :: c :: rest)
  | _ => false

/-- The ways to quote a string. -/
inductive Quoting
  | basic
  | literal
  | basicLines
  | literalLines
deriving Repr, DecidableEq

/-- The first form that a string fits into. -/
def quotingOf (cs : List Char) : Quoting :=
  let control := cs.any isControl
  let broken := cs.contains '\n'
  if !control && !cs.contains '\\' && !cs.contains '"' && !broken then .basic
  else if !control && !cs.contains '\'' && !broken then .literal
  else if !control && !cs.contains '\\' && !hasTriple '"' cs then .basicLines
  else if !control && !hasTriple '\'' cs then .literalLines
  else if broken then .basicLines
  else .basic

/-- A digit of a code point. -/
def hexDigit (n : Nat) : Char :=
  if n < 10 then Char.ofNat ('0'.toNat + n) else Char.ofNat ('A'.toNat + (n - 10))

/-- A character other than a quote or a line end, as it stands between double
quotes. -/
def escape (c : Char) : List Char :=
  if c = '\t' then ['\\', 't']
  else if c = '\x08' then ['\\', 'b']
  else if c = '\x0c' then ['\\', 'f']
  else if c = '\r' then ['\\', 'r']
  else if c = '\\' then ['\\', '\\']
  else if isControl c then
    ['\\', 'u', '0', '0', hexDigit (c.toNat / 16), hexDigit (c.toNat % 16)]
  else [c]

/-- The content of a string in double quotes. -/
def escapeLine : List Char → List Char
  | [] => []
  | '"' :: cs => '\\' :: '"' :: escapeLine cs
  | '\n' :: cs => '\\' :: 'n' :: escapeLine cs
  | c :: cs => escape c ++ escapeLine cs

/-- The content of a string in three double quotes, behind so many plain quotes:
the third quote in a row is escaped. -/
def escapeLines : (quotes : Nat) → List Char → List Char
  | _, [] => []
  | quotes, '"' :: cs =>
    if quotes = 2 then '\\' :: '"' :: escapeLines 0 cs
    else '"' :: escapeLines (quotes + 1) cs
  | _, '\n' :: cs => '\n' :: escapeLines 0 cs
  | _, c :: cs => escape c ++ escapeLines 0 cs

/-- The line end behind three opening quotes; a string that has line ends itself
starts on a line of its own. -/
def firstLineEnd (cs : List Char) : List Char := if cs.contains '\n' then ['\n'] else []

/-- A string with its quotes. -/
def quoteText (cs : List Char) : List Char :=
  match quotingOf cs with
  | .basic => '"' :: escapeLine cs ++ ['"']
  | .literal => '\'' :: cs ++ ['\'']
  | .basicLines =>
    '"' :: '"' :: '"' :: firstLineEnd cs ++ escapeLines 0 cs ++ ['"', '"', '"']
  | .literalLines =>
    '\'' :: '\'' :: '\'' :: firstLineEnd cs ++ cs ++ ['\'', '\'', '\'']

/-! ### Values -/

/-- Numbers are never written with an exponent, and whole numbers end in `.0`. -/
def numbers : Layout where
  positional := none
  point := true
  plus := false
  tie := .up
  nan := "nan"

/-- A key, in quotes if it holds anything but letters, digits, underscores and
dashes. -/
def writeKey (name : String) : String :=
  if !name.isEmpty && name.toList.all fun c => c.isAlphanum || c == '_' || c == '-' then name
  else .ofList (quoteText name.toList)

mutual

/-- A value on one line, as far as its strings allow. -/
def Value.write : Value → String
  | .text content => .ofList (quoteText content.toList)
  | .integer n => toString n
  | .float x => numbers.render x
  | .boolean b => if b then "true" else "false"
  | .moment content => content
  | .array elements => "[" ++ ", ".intercalate (writeElements elements) ++ "]"
  | .table [] => "\x7b\x7d"
  | .table entries => "\x7b " ++ ", ".intercalate (writeEntries entries) ++ " \x7d"

/-- The elements of an array. -/
def writeElements : List Value → List String
  | [] => []
  | first :: rest => first.write :: writeElements rest

/-- The entries of an inline table. -/
def writeEntries : List (String × Value) → List String
  | [] => []
  | (name, value) :: rest => s!"{writeKey name} = {value.write}" :: writeEntries rest

end

/-! ### Documents -/

/-- How arrays are set. -/
inductive Style
  /-- Arrays of two or more elements are spread over lines. -/
  | pretty
  /-- All arrays stand on one line. -/
  | compact
deriving Repr, DecidableEq

/-- The value of an entry. -/
def Style.write (style : Style) : Value → String
  | .array (first :: second :: rest) =>
    match style with
    | .compact => (Value.array (first :: second :: rest)).write
    | .pretty =>
      let lines := (writeElements (first :: second :: rest)).map fun element => s!"    {element},\n"
      "[\n" ++ String.join lines ++ "]"
  | value => value.write

/-- A key with the path in front of it. -/
def writePath (path : List String) (name : String) : String :=
  ".".intercalate ((path ++ [name]).map writeKey)

/-- A line with an entry. -/
def Style.writeEntry (style : Style) : List String × String × Value → String
  | (path, name, value) => s!"{writePath path name} = {style.write value}\n"

/-- The lines of a section, with an empty line in front. -/
def Style.writeSection (style : Style) (written : Section) : String :=
  let path := writePath written.path written.name
  let header := if written.appends then s!"[[{path}]]" else s!"[{path}]"
  s!"\n{header}\n" ++ String.join (written.entries.map style.writeEntry)

/-- The text of a document. -/
def Document.write (style : Style) (document : Document) : String :=
  String.join (document.preamble.map style.writeEntry) ++
    String.join (document.sections.map style.writeSection)

end ItemScoring.Toml
