/-!
# Log entries

What the library reports about its work besides results.  Entries are computed from
results, so that the work itself has no effects.  A command logs them as it goes along, and
the command line shows the warnings among them.
-/

namespace ItemScoring

/-- How important an entry is. -/
inductive LogLevel
  | debug
  | info
  | warn
deriving Repr, DecidableEq

/-- How a line of a log names the level. -/
def LogLevel.name : LogLevel → String
  | debug => "DEBUG"
  | info => "INFO"
  | warn => "WARN"

/-- A line of a log. -/
structure LogEntry where
  level : LogLevel
  text : String
deriving Repr, DecidableEq

namespace LogEntry

/-- Whether the command line shows the entry, which it does with warnings only. -/
def isShown (entry : LogEntry) : Bool := entry.level == .warn

/-- The line that is shown. -/
def line (entry : LogEntry) : String := s!"[{entry.level.name}] {entry.text}"

end LogEntry

end ItemScoring
