import ItemScoring.Command.Scoring

/-!
# The program

Carries out the script of a command on the files of the system.
-/

namespace ItemScoring

/-- The cause of a failure of the system, which may give its numbers with a minus. -/
def FileError.ofSystem : IO.Error → FileError
  | .noFileOrDirectory .. => .missing
  | .permissionDenied .. => .denied
  | .inappropriateType _ number _ =>
    if number = 21 ∨ number = -21 then .directory else .notDirectory
  | error => .other error.toString

/-- Carries out a script; the result tells how it ended. -/
def Script.perform : Script → IO ExitStatus
  | finish => return .success
  | fail message => do
    IO.eprintln (errorLine message)
    return .failure
  | print line next => do
    IO.println line
    next.perform
  | log entries next => do
    for entry in entries.filter LogEntry.isShown do
      IO.eprintln entry.line
    next.perform
  | read path next => do
    let content ← (IO.FS.readBinFile path).toBaseIO
    (next (content.mapError FileError.ofSystem)).perform
  | save path text next => do
    let result ← (IO.FS.writeFile path text).toBaseIO
    (next (result.mapError FileError.ofSystem)).perform

end ItemScoring

open ItemScoring in
/-- Reads the command line and carries out its command. -/
def main (arguments : List String) : IO UInt32 := do
  match Command.parse arguments with
  | .ok command =>
    let status ← (Script.ofCommand command).perform
    return status.code.toUInt32
  | .error error =>
    IO.eprintln (errorLine error.message)
    return ExitStatus.usage.code.toUInt32
