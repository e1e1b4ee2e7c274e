import ItemScoring.Toml.Blank
import ItemScoring.Toml.Document
import ItemScoring.Toml.Scalar
import ItemScoring.Toml.Text

/-!
# Reading TOML

`Toml.parse?` reads a whole document.  Arrays and inline tables nest at most
`nestingLimit` deep and keys have at most as many parts; both limits bound the
recursion.  The loops over elements and lines are bounded by the number of
characters ahead, each round taking at least one of them.
-/

namespace ItemScoring.Toml

/-- How deep arrays and inline tables nest, and how many parts a key has. -/
def nestingLimit : Nat := 79

/-! ### Keys -/

/-- Keys without quotes hold letters, digits, underscores and dashes. -/
def isBareKeyChar (c : Char) : Bool := c.isAlphanum ∨ c = '_' ∨ c = '-'

/-- Reads one part of a key. -/
def keyPart : Reader String
  | '"' :: cs => (basicChars .none cs).map fun (content, rest) => (.ofList content, rest)
  | '\'' :: cs => (literalChars cs).map fun (content, rest) => (.ofList content, rest)
  | cs =>
    let (name, rest) := cs.span isBareKeyChar
    if name.isEmpty then none else some (.ofList name, rest)

/-- Reads a key of at most `room` parts with the blanks around them: the parts but
the last, and the last. -/
def key : (room : Nat) → Reader (List String × String)
  | 0, _ => none
  | room + 1, cs => do
    let (part, cs) ← keyPart (skipBlanks cs)
    match skipBlanks cs with
    | '.' :: cs => do
      let ((path, last), rest) ← key room cs
      return ((part :: path, last), rest)
    | rest => return (([], part), rest)

/-! ### Values -/

/-- Reads the elements of an array behind its opening bracket or a comma, and the
closing bracket. -/
def elements (value : Reader Value) : (fuel : Nat) → Reader (List Value)
  | 0, _ => none
  | fuel + 1, cs => do
    match ← skipLines false cs with
    | ']' :: rest => return ([], rest)
    | cs => do
      let (first, cs) ← value cs
      match ← skipLines false cs with
      | ',' :: cs => do
        let (others, rest) ← elements value fuel cs
        return (first :: others, rest)
      | ']' :: rest => return ([first], rest)
      | _ => none

/-- Reads a key, an equals sign and a value. -/
def entry (value : Reader Value) : Reader (List String × String × Value) := fun cs => do
  let ((path, last), cs) ← key nestingLimit cs
  let cs ← expect '=' cs
  let (content, rest) ← value (skipBlanks cs)
  return ((path, last, content), rest)

/-- Reads the entries of an inline table, of which there is at least one, and the
closing brace. -/
def inlineEntries (value : Reader Value) :
    (fuel : Nat) → Reader (List (List String × String × Value))
  | 0, _ => none
  | fuel + 1, cs => do
    let (first, cs) ← entry value cs
    match skipBlanks cs with
    | ',' :: cs => do
      let (others, rest) ← inlineEntries value fuel cs
      return (first :: others, rest)
    | '\x7d' :: rest => return ([first], rest)
    | _ => none

/-- Reads an inline table behind its opening brace. -/
def inlineTable (value : Reader Value) (cs : List Char) : Option (Value × List Char) :=
  match skipBlanks cs with
  | '\x7d' :: rest => some (.table [], rest)
  | cs => do
    let (written, rest) ← inlineEntries value cs.length cs
    let branches ← Branches.insertAll [] written
    return (.table (entriesOf branches), rest)

/-- Reads a value in which arrays and inline tables nest at most `room` deep. -/
def value : (room : Nat) → Reader Value
  | _, '"' :: cs => (text ('"' :: cs)).map fun (content, rest) => (.text (.ofList content), rest)
  | _, '\'' :: cs => (text ('\'' :: cs)).map fun (content, rest) => (.text (.ofList content), rest)
  | room + 1, '[' :: cs =>
    (elements (value room) cs.length cs).map fun (content, rest) => (.array content, rest)
  | room + 1, '\x7b' :: cs => inlineTable (value room) cs
  | _, cs => scalar cs

/-! ### Documents -/

/-- A line of a document, or the lines of an entry whose value takes several. -/
inductive Statement
  | entry (path : List String) (name : String) (value : Value)
  | header (appends : Bool) (path : List String) (name : String)

/-- Reads the rest of a header and of its line. -/
def header (appends : Bool) (cs : List Char) : Option (Statement × List Char) := do
  let ((path, name), cs) ← key nestingLimit cs
  let cs ← expect ']' cs
  let cs ← if appends then expect ']' cs else some cs
  let rest ← endOfLine? cs
  return (.header appends path name, rest)

/-- Reads the statements of a document. -/
def statements : (fuel : Nat) → List Char → Option (List Statement)
  | 0, _ => none
  | fuel + 1, cs =>
    match skipBlanks cs with
    | [] => some []
    | '\n' :: rest => statements fuel rest
    | '\r' :: '\n' :: rest => statements fuel rest
    | '#' :: cs => do statements fuel (← lineEnd? (skipComment ('#' :: cs)))
    | '[' :: '[' :: cs => do
      let (first, rest) ← header true cs
      return first :: (← statements fuel rest)
    | '[' :: cs => do
      let (first, rest) ← header false cs
      return first :: (← statements fuel rest)
    | cs => do
      let ((path, name, content), cs) ← entry (value nestingLimit) cs
      let rest ← endOfLine? cs
      return .entry path name content :: (← statements fuel rest)

/-- Gathers statements: the entries in front of the first header, and the
sections. -/
def documentOf : List Statement → Document
  | [] => { preamble := [], sections := [] }
  | .entry path name content :: rest =>
    let document := documentOf rest
    { document with preamble := (path, name, content) :: document.preamble }
  | .header appends path name :: rest =>
    let document := documentOf rest
    { preamble := []
      sections := { appends, path, name, entries := document.preamble } :: document.sections }

/-- Leaves out a byte order mark. -/
def skipMark : List Char → List Char
  | '\ufeff' :: cs => cs
  | cs => cs

/-- The entries of a TOML document; nothing if the text is not one. -/
def parse? (document : String) : Option Entries := do
  let cs := skipMark document.toList
  (documentOf (← statements (cs.length + 1) cs)).entries?

end ItemScoring.Toml
