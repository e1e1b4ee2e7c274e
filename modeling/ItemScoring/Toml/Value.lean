/-!
# TOML values

The values of a TOML document.  Tables keep their entries in document order.
-/

namespace ItemScoring.Toml

/-- A TOML value. -/
inductive Value
  | text (content : String)
  | integer (n : Int)
  | float (x : Float)
  | boolean (b : Bool)
  /-- A date, a time or both, as written. -/
  | moment (content : String)
  | array (elements : List Value)
  | table (entries : List (String × Value))
deriving Repr, Inhabited

/-- The entries of a table. -/
abbrev Entries := List (String × Value)

/-- A step of reading: from the characters ahead to a result and the characters
behind it, or nothing if they do not fit. -/
abbrev Reader (α : Type) := List Char → Option (α × List Char)

end ItemScoring.Toml
