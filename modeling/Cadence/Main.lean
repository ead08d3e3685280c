import Cadence.Command.Run
import Std.Time.Zoned

/-!
# The program

Reads the command line, the settings file and the clock, runs the command, and prints the outcome.
-/

namespace Cadence

/-- What there is under the name of a file. -/
def findFile (name : String) : IO SettingsFile := do
  try
    return .content (← IO.FS.readBinFile name)
  catch
    | .noFileOrDirectory .. => return .missing
    | _ => return .unreadable

/-- The date of today where the program runs. -/
def today : IO Date := do
  let now ← Std.Time.PlainDate.now
  let date := Date.ofYearMonthDay? now.year.toInt now.month.toNat now.day.toNat
  match date with
  | some date => return date
  | none => throw (IO.userError "the clock is outside the calendar")

/-- Prints an outcome and gives its exit code. -/
def Outcome.print (outcome : Outcome) : IO UInt32 := do
  (← IO.getStdout).putStr outcome.output
  (← IO.getStderr).putStr outcome.errors
  return outcome.exitCode.toUInt32

end Cadence

open Cadence in
def main (arguments : List String) : IO UInt32 := do
  match Invocation.parse arguments with
  | .error refusal => refusal.outcome.print
  | .ok invocation =>
    let file ← match invocation.settingsFile with
      | some name => findFile name
      | none => pure .missing
    (invocation.run file (← today)).print
