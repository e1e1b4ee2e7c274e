import Std.Data.TreeMap
import ItemScoring.Command.Script

/-!
# Files in memory

A disk is a set of files in and below one directory, from which all paths start.
A script is carried out on it, with all it prints.  Directories are those of the
files; a file can be created in each of them.  Nothing outside can be reached.
-/

namespace ItemScoring

/-- Files by their paths, without references to directories of dots. -/
structure Disk where
  files : Std.TreeMap String ByteArray

namespace Disk

/-- The disk with the given files. -/
def ofFiles (files : List (String × ByteArray)) : Disk where
  files := files.foldl (fun known (path, content) => known.insert path content) ∅

/-! ### Paths -/

/-- The pieces of a path between its slashes. -/
def segments : List Char → List (List Char)
  | [] => [[]]
  | c :: cs =>
    if c = '/' then [] :: segments cs
    else
      match segments cs with
      | [] => [[c]]
      | first :: rest => (c :: first) :: rest

/-- The names in a path that starts from the directory of the disk; the last one is
empty if the path ends with a slash. -/
def namesOf (path : String) : Except FileError (List String) :=
  match path.toList with
  | [] => .error .missing
  | '/' :: _ => .error .missing
  | cs => .ok ((segments cs).map .ofList)

/-- The path of names. -/
def pathOf (names : List String) : String := "/".intercalate names

/-- Whether a name does not lead on: an empty name and a dot stand for the
directory itself, two dots for the one above. -/
def isDots (name : String) : Bool := name == "" || name == "." || name == ".."

variable (disk : Disk)

/-- Whether there is a file with the given names. -/
def hasFile (names : List String) : Bool := disk.files.contains (pathOf names)

/-- Whether there is a directory with the given names. -/
def hasDirectory (names : List String) : Bool :=
  let home := pathOf names ++ "/"
  names.isEmpty || disk.files.keys.any fun path => home.toList.isPrefixOf path.toList

/-- The directory that is reached from the directory `here` along names. -/
def enter (here : List String) : List String → Except FileError (List String)
  | [] => .ok here
  | name :: rest =>
    if name = "" ∨ name = "." then enter here rest
    else if name = ".." then
      if here.isEmpty then .error .missing else enter here.dropLast rest
    else if disk.hasDirectory (here ++ [name]) then enter (here ++ [name]) rest
    else if disk.hasFile (here ++ [name]) then .error .notDirectory
    else .error .missing

/-! ### Reading and writing -/

/-- What is in a file. -/
def read (path : String) : FileContent := do
  let names ← namesOf path
  let home ← disk.enter [] names.dropLast
  let last := names.getLastD ""
  let target := home ++ [last]
  if isDots last ∨ disk.hasDirectory target then .error .directory
  else
    match disk.files[pathOf target]? with
    | some content => .ok content
    | none => .error .missing

/-- The path at which a file is created. -/
def place (path : String) : Except FileError String := do
  let names ← namesOf path
  let solid := (names.reverse.dropWhile (· == "")).reverse
  let home ← disk.enter [] solid.dropLast
  let target := home ++ [solid.getLastD ""]
  if isDots (names.getLastD "") ∨ disk.hasDirectory target then .error .directory
  else .ok (pathOf target)

/-- Writes a file, if it can be created. -/
def write (path text : String) : Except FileError Disk := do
  let place ← disk.place path
  return { files := disk.files.insert place text.toUTF8 }

/-- The files that are new or other than on an earlier disk. -/
def changes (earlier disk : Disk) : List (String × ByteArray) :=
  disk.files.toList.filter fun (path, content) => earlier.files[path]? != some content

end Disk

/-- What a run of the program leaves behind. -/
structure Outcome where
  status : ExitStatus
  output : String
  /-- The entries of the log that were shown. -/
  shown : List LogEntry
  errors : String
  disk : Disk

/-- Carries out a script, given what was printed so far. -/
def Script.run (output : String) (disk : Disk) : Script → Outcome
  | finish => { status := .success, output, shown := [], errors := "", disk }
  | fail message =>
    { status := .failure, output, shown := [], errors := errorLine message ++ "\n", disk }
  | print line next => next.run (output ++ line ++ "\n") disk
  | log entries next =>
    let outcome := next.run output disk
    { outcome with shown := entries.filter LogEntry.isShown ++ outcome.shown }
  | read path next => (next (disk.read path)).run output disk
  | save path text next =>
    match disk.write path text with
    | .ok disk => (next (.ok ())).run output disk
    | .error error => (next (.error error)).run output disk

end ItemScoring
