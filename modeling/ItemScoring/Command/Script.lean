import ItemScoring.File
import ItemScoring.Log

/-!
# Scripts

A script is what a command does to the world: lines printed, entries logged, files
read and created, in order, and an end that is a success or a failure.  It is a value, so
that what a command does can be computed and reasoned about; a `Disk` carries it
out on files in memory.
-/

namespace ItemScoring

/-- What is done in order, and how it ends. -/
inductive Script
  | finish
  | fail (message : String)
  | print (line : String) (next : Script)
  | log (entries : List LogEntry) (next : Script)
  | read (path : String) (next : FileContent → Script)
  /-- Creates a file, or empties it, and writes a text to it. -/
  | save (path text : String) (next : Except FileError Unit → Script)

namespace Script

/-- Goes on with a result, or fails with the wording of its error. -/
def attempt {ε α : Type} (message : ε → String) (result : Except ε α) (next : α → Script) :
    Script :=
  match result with
  | .ok a => next a
  | .error e => fail (message e)

/-- Prints lines one after the other. -/
def printAll (lines : List String) (next : Script) : Script := lines.foldr print next

end Script

/-- How a run of the program ends. -/
inductive ExitStatus
  | success
  | failure
  | usage
deriving Repr, DecidableEq

/-- The number that the system is given. -/
def ExitStatus.code : ExitStatus → Nat
  | success => 0
  | failure => 1
  | usage => 2

/-- The line that reports an error. -/
def errorLine (message : String) : String := s!"Error: {message}"

end ItemScoring
