import ItemScoring.Toml.Value

/-!
# TOML strings

A string is written in one of four ways: between double or single quotes, and
between one or three of them.  Double quotes allow escapes, single quotes take
every character as it is; three quotes allow line breaks.

Strings are read one character at a time, with the state of a pending escape
(`Escape`).  A run of quotes at the end of a string in three quotes may hold up
to two quotes of the string itself.
-/

namespace ItemScoring.Toml

/-! ### Characters -/

/-- What may stand in a string as it is: anything but control characters; tabs are
allowed. -/
def isTextChar (c : Char) : Bool := c = '\t' ∨ (' ' ≤ c ∧ c ≠ '\x7f')

/-- The value of a hexadecimal digit. -/
def hexValue? (c : Char) : Option Nat :=
  if '0' ≤ c ∧ c ≤ '9' then some (c.toNat - '0'.toNat)
  else if 'a' ≤ c ∧ c ≤ 'f' then some (c.toNat - 'a'.toNat + 10)
  else if 'A' ≤ c ∧ c ≤ 'F' then some (c.toNat - 'A'.toNat + 10)
  else none

/-- The character with this code point; surrogates are no characters. -/
def charOfCode? (code : Nat) : Option Char :=
  if h : code.isValidChar then some (Char.ofNatAux code h) else none

/-! ### Escapes -/

/-- How far an escape has been read. -/
inductive Escape
  | none
  | begun
  /-- So many digits of a code point are missing from this value. -/
  | digits (missing value : Nat)
  /-- A backslash and blanks have been read: the line must end. -/
  | lineEnd
  /-- An escaped line end has been read: blanks and line ends are skipped. -/
  | lines
deriving Repr, DecidableEq

/-- The character that a letter stands for behind a backslash. -/
def escaped? : Char → Option Char
  | 'b' => some '\x08'
  | 't' => some '\t'
  | 'n' => some '\n'
  | 'f' => some '\x0c'
  | 'r' => some '\r'
  | '"' => some '"'
  | '\\' => some '\\'
  | _ => none

/-- The number of digits of the code point behind a backslash and this letter. -/
def codeLength? : Char → Option Nat
  | 'u' => some 4
  | 'U' => some 8
  | _ => none

/-- Puts a character in front of what is read after it. -/
def prepend (c : Char) : Option (List Char × List Char) → Option (List Char × List Char) :=
  Option.map fun (content, rest) => (c :: content, rest)

/-- Reads the rest of a string in double quotes, up to and with the closing
quote. -/
def basicChars : Escape → Reader (List Char)
  | .begun, c :: cs =>
    match escaped? c, codeLength? c with
    | some d, _ => prepend d (basicChars .none cs)
    | none, some missing => basicChars (.digits missing 0) cs
    | none, none => none
  | .digits missing value, c :: cs => do
    let digit ← hexValue? c
    if missing = 1 then
      let d ← charOfCode? (16 * value + digit)
      prepend d (basicChars .none cs)
    else basicChars (.digits (missing - 1) (16 * value + digit)) cs
  | .none, '"' :: cs => some ([], cs)
  | .none, '\\' :: cs => basicChars .begun cs
  | .none, c :: cs => if isTextChar c then prepend c (basicChars .none cs) else none
  | _, _ => none

/-- Reads the rest of a string in three double quotes, up to and with the closing
quotes. -/
def basicLines : Escape → Reader (List Char)
  | .begun, '\n' :: cs => basicLines .lines cs
  | .begun, '\r' :: '\n' :: cs => basicLines .lines cs
  | .begun, ' ' :: cs => basicLines .lineEnd cs
  | .begun, '\t' :: cs => basicLines .lineEnd cs
  | .begun, c :: cs =>
    match escaped? c, codeLength? c with
    | some d, _ => prepend d (basicLines .none cs)
    | none, some missing => basicLines (.digits missing 0) cs
    | none, none => none
  | .digits missing value, c :: cs => do
    let digit ← hexValue? c
    if missing = 1 then
      let d ← charOfCode? (16 * value + digit)
      prepend d (basicLines .none cs)
    else basicLines (.digits (missing - 1) (16 * value + digit)) cs
  | .lineEnd, '\n' :: cs => basicLines .lines cs
  | .lineEnd, '\r' :: '\n' :: cs => basicLines .lines cs
  | .lineEnd, ' ' :: cs => basicLines .lineEnd cs
  | .lineEnd, '\t' :: cs => basicLines .lineEnd cs
  | .lineEnd, _ => none
  | .lines, '\n' :: cs => basicLines .lines cs
  | .lines, '\r' :: '\n' :: cs => basicLines .lines cs
  | .lines, ' ' :: cs => basicLines .lines cs
  | .lines, '\t' :: cs => basicLines .lines cs
  | _, '"' :: '"' :: '"' :: '"' :: '"' :: cs => some (['"', '"'], cs)
  | _, '"' :: '"' :: '"' :: '"' :: cs => some (['"'], cs)
  | _, '"' :: '"' :: '"' :: cs => some ([], cs)
  | _, '\n' :: cs => prepend '\n' (basicLines .none cs)
  | _, '\r' :: '\n' :: cs => prepend '\n' (basicLines .none cs)
  | _, '\\' :: cs => basicLines .begun cs
  | _, c :: cs => if isTextChar c then prepend c (basicLines .none cs) else none
  | _, [] => none

/-! ### Strings without escapes -/

/-- Reads the rest of a string in single quotes, up to and with the closing
quote. -/
def literalChars : Reader (List Char)
  | '\'' :: cs => some ([], cs)
  | c :: cs => if isTextChar c then prepend c (literalChars cs) else none
  | [] => none

/-- Reads the rest of a string in three single quotes, up to and with the closing
quotes. -/
def literalLines : Reader (List Char)
  | '\'' :: '\'' :: '\'' :: '\'' :: '\'' :: cs => some (['\'', '\''], cs)
  | '\'' :: '\'' :: '\'' :: '\'' :: cs => some (['\''], cs)
  | '\'' :: '\'' :: '\'' :: cs => some ([], cs)
  | '\n' :: cs => prepend '\n' (literalLines cs)
  | '\r' :: '\n' :: cs => prepend '\n' (literalLines cs)
  | c :: cs => if isTextChar c then prepend c (literalLines cs) else none
  | [] => none

/-! ### Any string -/

/-- Skips the line end right behind three opening quotes. -/
def skipFirstLineEnd : List Char → List Char
  | '\n' :: cs => cs
  | '\r' :: '\n' :: cs => cs
  | cs => cs

/-- Reads a string on one line. -/
def lineText : Reader (List Char)
  | '"' :: cs => basicChars .none cs
  | '\'' :: cs => literalChars cs
  | _ => none

/-- Reads a string. -/
def text : Reader (List Char)
  | '"' :: '"' :: '"' :: cs => basicLines .none (skipFirstLineEnd cs)
  | '\'' :: '\'' :: '\'' :: cs => literalLines (skipFirstLineEnd cs)
  | cs => lineText cs

end ItemScoring.Toml
