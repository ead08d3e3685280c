import Cadence.Calendar.Civil
import Cadence.Calendar.Date
import Cadence.Calendar.DateText
import Cadence.Calendar.Month
import Cadence.Calendar.Weekday
import Cadence.Calendar.WeekdaySet
import Cadence.Command.Arguments
import Cadence.Command.Run
import Cadence.Count
import Cadence.Datum
import Cadence.Ending.Basic
import Cadence.Ending.Stored
import Cadence.Ending.Text
import Cadence.Legacy.Columns
import Cadence.Legacy.Stored
import Cadence.Main
import Cadence.Occurrence.Query
import Cadence.Occurrence.Series
import Cadence.Row
import Cadence.Rule.Basic
import Cadence.Rule.Fault
import Cadence.Rule.Firing
import Cadence.Rule.Pattern
import Cadence.Rule.Phrase
import Cadence.Rule.Reading
import Cadence.Settings
import Cadence.Text.Blank
import Cadence.Text.Numeral
import Cadence.Text.Separator
import Cadence.Toml.Document
import Cadence.Toml.Gap
import Cadence.Toml.Key
import Cadence.Toml.Quoted
import Cadence.Toml.Record
import Cadence.Toml.Scalar
import Cadence.Toml.Tree
import Cadence.Toml.Value
import Cadence.Proofs.Calendar.Civil
import Cadence.Proofs.Calendar.Week
import Cadence.Proofs.Calendar.WeekdaySet
import Cadence.Proofs.Occurrence.Annual
import Cadence.Proofs.Occurrence.Enumeration
import Cadence.Proofs.Occurrence.Paging
import Cadence.Proofs.Occurrence.WeekBlocks
import Cadence.Proofs.Pattern.Agreement
import Cadence.Proofs.Pattern.Canonical
import Cadence.Proofs.Pattern.Field
import Cadence.Proofs.Pattern.Grammar
import Cadence.Proofs.Pattern.Normal
import Cadence.Proofs.Rule.Firing
import Cadence.Proofs.Text.Division
import Cadence.Proofs.Text.Numeral
import Cadence.Proofs.Calendar.Next
import Cadence.Proofs.Occurrence.NextDate
import Cadence.Proofs.Occurrence.Cursor
import Cadence.Proofs.Rule.Editing
import Cadence.Proofs.Calendar.DateText
import Cadence.Proofs.Datum
import Cadence.Proofs.Ending.Stored
import Cadence.Proofs.Legacy.Columns
import Cadence.Proofs.Toml.Document
import Cadence.Proofs.Toml.Quoted
import Cadence.Proofs.Toml.Record
import Cadence.Proofs.Toml.Scalar
import Cadence.Proofs.Row
import Cadence.Proofs.Settings
import Cadence.Proofs.Ending.Text
import Cadence.Proofs.Calendar.MonthDates
import Cadence.Proofs.Command.Strict
import Cadence.Proofs.Occurrence.IntervalRules
import Cadence.Proofs.Rule.CalendarRules
import Cadence.Proofs.Rule.Periods
import Cadence.Proofs.Occurrence.Comparison
import Cadence.Proofs.Pattern.Recovery
import Cadence.Proofs.Pattern.Style
import Cadence.Proofs.Legacy.Grammar
import Cadence.Proofs.Rule.Phrase
import Cadence.Proofs.Rule.WeekdayMask
import Cadence.Proofs.Rule.Fault
import Cadence.Proofs.Pattern.Policy
