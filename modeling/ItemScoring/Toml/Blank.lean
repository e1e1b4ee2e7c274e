/-!
# What stands between TOML tokens

Blanks, line ends and comments.
-/

namespace ItemScoring.Toml

/-- Spaces and tabs separate tokens on a line. -/
def isBlank (c : Char) : Bool := c = ' ' ∨ c = '\t'

/-- Comments hold anything but control characters; tabs are allowed. -/
def isCommentChar (c : Char) : Bool := c = '\t' ∨ (' ' ≤ c ∧ c ≠ '\x7f')

/-- Skips blanks. -/
def skipBlanks (cs : List Char) : List Char := cs.dropWhile isBlank

/-- Skips a comment, if there is one. -/
def skipComment : List Char → List Char
  | '#' :: cs => cs.dropWhile isCommentChar
  | cs => cs

/-- Takes a line end; the end of the text counts as one. -/
def lineEnd? : List Char → Option (List Char)
  | [] => some []
  | '\n' :: cs => some cs
  | '\r' :: '\n' :: cs => some cs
  | _ => none

/-- Takes the rest of a line, on which nothing may stand but a comment. -/
def endOfLine? (cs : List Char) : Option (List Char) := lineEnd? (skipComment (skipBlanks cs))

/-- Skips blanks, line ends and comments, as they may stand between the elements of
an array.  A comment must end with its line and not with the text. -/
def skipLines : (inComment : Bool) → List Char → Option (List Char)
  | _, '\n' :: cs => skipLines false cs
  | _, '\r' :: '\n' :: cs => skipLines false cs
  | true, [] => none
  | true, c :: cs => if isCommentChar c then skipLines true cs else none
  | false, [] => some []
  | false, c :: cs =>
    if isBlank c then skipLines false cs
    else if c = '#' then skipLines true cs
    else some (c :: cs)

end ItemScoring.Toml
