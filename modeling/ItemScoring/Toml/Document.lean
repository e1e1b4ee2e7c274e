import ItemScoring.Toml.Value

/-!
# Putting a TOML document together

A document is written as a preamble and sections.  Each section has a header
with a path and entries below it; `[path]` opens the table at the path, and
`[[path]]` appends a table to the array at the path.  Keys of entries may be
paths themselves.

`Document.value?` builds the table that all this describes.  No key may be given
twice and no table opened twice.  What has come about on the way to something
else may still be filled in: a table that only a longer header implied may be
opened by a header of its own, and a table that dotted keys made takes further
dotted keys.
-/

namespace ItemScoring.Toml

/-- A header and the entries below it. -/
structure Section where
  /-- Whether the header appends to an array. -/
  appends : Bool
  path : List String
  name : String
  entries : List (List String × String × Value)

/-- A document as it is written. -/
structure Document where
  preamble : List (List String × String × Value)
  sections : List Section

/-- What a table came from. -/
inductive Origin
  /-- A header, or the top of the document. -/
  | header
  /-- The path of a header that goes on below it. -/
  | implied
  | dotted
deriving Repr, DecidableEq

/-- A value under construction.  What stands behind an equals sign is complete;
tables and arrays of tables that headers or dotted keys made may grow. -/
inductive Growing
  | closed (value : Value)
  | table (origin : Origin) (entries : List (String × Growing))
  | tables (elements : List (List (String × Growing)))

/-- The entries of a table under construction. -/
abbrev Branches := List (String × Growing)

namespace Branches

/-- Puts an entry in the place of the one with the same key. -/
def replace (key : String) (branch : Growing) : Branches → Branches
  | [] => []
  | (k, b) :: rest => if k = key then (k, branch) :: rest else (k, b) :: replace key branch rest

/-- Leaves out the entry with the key. -/
def erase (key : String) (branches : Branches) : Branches := branches.filter (·.1 ≠ key)

/-- Changes the table at the end of a path, whose origin is passed on to the change.
Missing tables are made on the way; in an array of tables the path leads into the
last one.  A dotted key does not lead into a table that a header opened. -/
def change (dotted : Bool) (f : Origin → Branches → Option Branches) :
    (path : List String) → Origin → Branches → Option Branches
  | [], origin, branches => f origin branches
  | key :: path, _, branches =>
    match branches.lookup key with
    | none => do
      let origin := if dotted then Origin.dotted else Origin.implied
      let inner ← change dotted f path origin []
      return branches ++ [(key, .table origin inner)]
    | some (.closed _) => none
    | some (.table origin inner) =>
      if dotted ∧ origin = .header then none
      else do
        let inner ← change dotted f path origin inner
        return branches.replace key (.table origin inner)
    | some (.tables elements) => do
      let last ← elements.getLast?
      let last ← change dotted f path .header last
      return branches.replace key (.tables (elements.dropLast ++ [last]))

/-- Adds an entry with a new key.  Dotted keys only end in tables that dotted keys
made. -/
def insert (dotted : Bool) (key : String) (value : Value) (origin : Origin)
    (branches : Branches) : Option Branches :=
  if dotted ∧ origin ≠ .dotted then none
  else if (branches.lookup key).isSome then none
  else some (branches ++ [(key, .closed value)])

/-- Adds entries one after the other. -/
def insertAll (branches : Branches) (entries : List (List String × String × Value)) :
    Option Branches :=
  entries.foldlM (fun branches (path, key, value) =>
    change true (insert (!path.isEmpty) key value) path .header branches) branches

/-- Adds a section to the table that its path leads to. -/
def addSection (written : Section) (_ : Origin) (branches : Branches) : Option Branches :=
  if written.appends then
    match branches.lookup written.name with
    | none => do
      let element ← insertAll [] written.entries
      return branches ++ [(written.name, .tables [element])]
    | some (.tables elements) => do
      let element ← insertAll [] written.entries
      return branches.replace written.name (.tables (elements ++ [element]))
    | some _ => none
  else
    match branches.lookup written.name with
    | none => do
      let table ← insertAll [] written.entries
      return branches ++ [(written.name, .table .header table)]
    | some (.table .implied inner) => do
      -- A table that is opened late moves behind what stands in front of its header.
      let table ← insertAll inner written.entries
      return branches.erase written.name ++ [(written.name, .table .header table)]
    | some _ => none

end Branches

mutual

/-- The value that has grown. -/
def Growing.value : Growing → Value
  | .closed value => value
  | .table _ entries => .table (entriesOf entries)
  | .tables elements => .array (elementsOf elements)

/-- The entries of a table that has grown. -/
def entriesOf : List (String × Growing) → Entries
  | [] => []
  | (key, branch) :: rest => (key, branch.value) :: entriesOf rest

/-- The elements of an array of tables that has grown. -/
def elementsOf : List (List (String × Growing)) → List Value
  | [] => []
  | first :: rest => .table (entriesOf first) :: elementsOf rest

end

/-- The entries that a document describes. -/
def Document.entries? (document : Document) : Option Entries := do
  let branches ← Branches.insertAll [] document.preamble
  let branches ← document.sections.foldlM (fun branches written =>
    branches.change false (Branches.addSection written) written.path .header) branches
  return entriesOf branches

end ItemScoring.Toml
