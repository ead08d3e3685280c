import Cadence.Settings

/-!
# Series

A series is a rule with its ending, and the point that it has been followed to: the last date shown
and how many there have been.  `Series.page` follows it further, by at most so many dates, and moves
that point.
-/

namespace Cadence

/-- A rule that is being followed. -/
structure Series where
  rule : Rule
  ending : Ending := .never
  /-- The date after which the series goes on. -/
  anchor : Date
  /-- How many occurrences the series has up to the anchor. -/
  produced : Nat := 0
deriving DecidableEq

namespace Series

def query (series : Series) (settings : Settings) (limit : Nat) : Query :=
  { rule := series.rule, anchor := series.anchor, ending := series.ending, limit,
    horizon := settings.searchHorizon.toNat, produced := series.produced,
    options := settings.options }

def dates (series : Series) (settings : Settings) (limit : Nat) : List Date :=
  (series.query settings limit).dates

/-- The dates of a series that starts anew at the anchor. -/
def startingDates (series : Series) (settings : Settings) (limit : Nat) : List Date :=
  { series with produced := 0 }.dates settings limit

/-- The first dates of the rule after the anchor, whatever the ending. -/
def preview (series : Series) (settings : Settings) : List Date :=
  { series with ending := .never, produced := 0 }.dates settings settings.previewCount.toNat

/-- The series with its anchor at the last of the given further dates. -/
def follow (series : Series) (dates : List Date) : Series :=
  { series with
    anchor := dates.getLastD series.anchor
    produced := series.produced + dates.length }

/-- At most `limit` further dates, and the series after them. -/
def page (series : Series) (settings : Settings) (limit : Nat) : List Date × Series :=
  let dates := series.dates settings limit
  (dates, series.follow dates)

end Series

end Cadence
