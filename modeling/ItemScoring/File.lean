/-!
# Files

Files are read as bytes and looked at as text.  The library itself touches no
file: it is handed what is in a file, or why there is nothing.
-/

namespace ItemScoring

/-- Why a file cannot be read or created. -/
inductive FileError
  /-- There is no file, or no directory for it. -/
  | missing
  /-- A file stands where a directory is needed. -/
  | notDirectory
  /-- A directory stands where a file is needed. -/
  | directory
  | denied
  | notText
  /-- What the system says about any other failure. -/
  | other (text : String)
deriving Repr, DecidableEq

namespace FileError

/-- The wording of the error. -/
def message : FileError → String
  | missing => "No such file or directory (os error 2)"
  | notDirectory => "Not a directory (os error 20)"
  | directory => "Is a directory (os error 21)"
  | denied => "Permission denied (os error 13)"
  | notText => "stream did not contain valid UTF-8"
  | other text => text

end FileError

/-- What is in a file, or why it cannot be read. -/
abbrev FileContent := Except FileError ByteArray

namespace FileContent

/-- The text in a file. -/
def text (content : FileContent) : Except FileError String := do
  let bytes ← content
  match String.fromUTF8? bytes with
  | some text => return text
  | none => throw .notText

end FileContent

end ItemScoring
