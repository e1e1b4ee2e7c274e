import ItemScoring.File
import ItemScoring.Model.Basic
import ItemScoring.Model.Schema
import ItemScoring.Toml.Reading

/-!
# Model files

A model is stored as a TOML document.  Reading one goes through four stages, each
with errors of its own: the file, the text, the tables, the model.
-/

namespace ItemScoring

/-- Why a model cannot be read. -/
inductive ModelFileError
  | file (error : FileError)
  | notToml
  | schema (error : SchemaError)
  | model (error : ModelError)
deriving Repr

namespace ModelFileError

/-- What is wrong, without the words for the stage at which it showed. -/
def detail : ModelFileError → String
  | file error => error.message
  | notToml => "the text is not a TOML document"
  | schema error => error.message
  | model error => error.message

/-- The wording of the error. -/
def message : ModelFileError → String
  | file error => s!"Failed to read or write model file: {error.message}"
  | notToml => s!"Failed to parse TOML model file: {notToml.detail}"
  | schema error => s!"Failed to parse TOML model file: {error.message}"
  | model error => error.message

end ModelFileError

namespace Model

/-- The tables in the text of a model file. -/
def parseTables (text : String) : Except ModelFileError ModelTables :=
  match Toml.parse? text with
  | none => .error .notToml
  | some entries => (ModelTables.ofEntries entries).mapError .schema

/-- The model in the text of a model file. -/
def parse (text : String) : Except ModelFileError Model := do
  let tables ← parseTables text
  (ofTables tables).mapError .model

/-- The model in a file. -/
def load (content : FileContent) : Except ModelFileError Model := do
  let text ← content.text.mapError .file
  parse text

/-- What the log says while a model is read from a file, whether or not it is accepted. -/
def loadingLog (content : FileContent) : List LogEntry :=
  match content.text.mapError .file >>= parseTables with
  | .error _ => []
  | .ok tables => tables.log

/-- The text of a model file. -/
def write (style : Toml.Style) (model : Model) : String := model.tables.document.write style

end Model

end ItemScoring
