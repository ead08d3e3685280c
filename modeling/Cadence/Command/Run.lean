import Cadence.Command.Arguments
import Cadence.Occurrence.Series
import Cadence.Rule.Phrase

/-!
# Running commands

A run of the program as a function: from the command line, the settings file and the date of today
to what is shown and the exit code.  A run either succeeds and shows an answer, or fails with a
message and shows none.
-/

namespace Cadence

/-- What a run shows, and how it ends. -/
structure Outcome where
  exitCode : Nat := 0
  output : String := ""
  errors : String := ""
deriving DecidableEq, Repr

namespace Outcome

def answer (output : String) : Outcome := { output }

def failure (message : String) : Outcome := { exitCode := 1, errors := "Error: " ++ message }

end Outcome

def lines (texts : List String) : String := String.join (texts.map (· ++ "\n"))

def usageText : String :=
  lines
    ["Usage: cadence [--config FILE] [--strict] COMMAND",
      "  summary PATTERN    the English phrase for a pattern",
      "  normalize PATTERN  the canonical form of a pattern",
      "  next PATTERN [--from DATE] [--count N] [--end END] [--done N]",
      "                     the dates that follow",
      "  import NAME        the pattern of legacy columns",
      "  help [COMMAND]     this text"]

/-- How a run ends that starts no command. -/
def Refusal.outcome : Refusal → Outcome
  | .help => .answer usageText
  | .usage => { exitCode := 2, errors := usageText }
  | .ambiguousConfig => { exitCode := 101 }

namespace Command

/-- The answer to a `next` command. -/
def nextLines (settings : Settings) (today : Date) (rule : Rule) (request : NextRequest) :
    List String :=
  let anchor := request.anchor.getD today
  let series : Series :=
    { rule, ending := request.ending, anchor, produced := request.produced }
  let dates := series.dates settings (request.limit.getD settings.previewCount.toNat)
  let title := s!"{rule.phrase} ({rule.pattern})"
  if dates.isEmpty then
    [title, s!"No occurrences within {settings.searchHorizon} days after {anchor.text}"]
  else title :: dates.map fun date => s!"  {date.text} {date.weekday.shortName}"

/-- The lines that answer a command. -/
def answer (settings : Settings) (today : Date) : Command → Except Malformed (List String)
  | summary pattern => do
    let rule ← Rule.parseWith settings.policy pattern
    return [rule.phrase]
  | normalize pattern => do
    let canonical ← Rule.normalizeWith settings.policy pattern
    return [canonical]
  | next request => do
    let rule ← Rule.parseWith settings.policy request.pattern
    return nextLines settings today rule request
  | importLegacy columns => do
    let rule ← columns.rule
    return [rule.pattern]

end Command

namespace Invocation

/-- The settings of a run: those of the file that it names, if any, strict if it asks for that. -/
def settings (invocation : Invocation) (file : SettingsFile) : Except SettingsFault Settings := do
  let settings ← match invocation.settingsFile with
    | none => pure {}
    | some _ => Settings.load file
  return if invocation.strict then { settings with policy := .strict } else settings

/-- Runs a command, given what there is under the name of its settings file. -/
def run (invocation : Invocation) (file : SettingsFile) (today : Date) : Outcome :=
  match invocation.settings file with
  | .error fault => .failure (fault.message (invocation.settingsFile.getD ""))
  | .ok settings =>
    match invocation.command.answer settings today with
    | .error error => .failure (error.message ++ "\n")
    | .ok texts => .answer (lines texts)

end Invocation

end Cadence
