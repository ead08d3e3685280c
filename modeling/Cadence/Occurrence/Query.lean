import Cadence.Ending.Basic
import Cadence.Rule.Firing

/-!
# Queries for occurrences

A query asks for the dates of a series after its anchor.  The days after the anchor are walked one
by one, up to the horizon, and each date on which the rule fires is an occurrence.  The walk stops
for good at a date past the ending or past the end of the calendar, and once there are enough dates.

A `Cursor` is such a walk in progress: `Cursor.next` gives the next occurrence, and
`Cursor.dates` all that are left.
-/

namespace Cadence

/-- A request for the dates of a series. -/
structure Query where
  rule : Rule
  /-- The walk starts on the day after this date. -/
  anchor : Date
  ending : Ending := .never
  limit : Nat := 5
  /-- The number of days after the anchor that are walked. -/
  horizon : Nat := 365
  /-- How many occurrences the series has up to the anchor. -/
  produced : Nat := 0
  options : FiringOptions := {}
deriving DecidableEq

namespace Query

/-- The most dates that the query can have: its limit, or what the ending leaves of it. -/
def allowance (query : Query) : Nat :=
  match query.ending.remaining? query.produced with
  | some remaining => min query.limit remaining
  | none => query.limit

/-- The date so many days after the anchor, if the series can still have one there. -/
def dateAt? (query : Query) (offset : Nat) : Option Date :=
  (query.anchor.addDays? offset).filter fun date => !query.ending.isPast date

def fires (query : Query) (date : Date) : Bool :=
  query.rule.firesOn query.options query.anchor date

/-- Walks on from the day with the given offset: the first occurrence after it, if the walk meets
one, and the offset that the walk ends at. -/
def advance (query : Query) (offset : Nat) : Option Date × Nat :=
  if offset < query.horizon then
    match query.dateAt? (offset + 1) with
    -- Past the ending, or past the calendar: so is every day after this one.
    | none => (none, offset + 1)
    | some date =>
      if query.fires date then (some date, offset + 1) else query.advance (offset + 1)
  else (none, offset)
termination_by query.horizon - offset

end Query

structure Cursor where
  query : Query
  /-- The number of days after the anchor that have been walked. -/
  offset : Nat
  /-- The most dates that can still come. -/
  remaining : Nat
  /-- Whether the walk has stopped for good. -/
  finished : Bool
deriving DecidableEq

namespace Cursor

def next (cursor : Cursor) : Option Date × Cursor :=
  if cursor.finished || cursor.remaining == 0 then
    (none, { cursor with finished := true })
  else
    match cursor.query.advance cursor.offset with
    | (some date, offset) =>
      (some date, { cursor with offset, remaining := cursor.remaining - 1 })
    | (none, offset) => (none, { cursor with offset, finished := true })

/-- Bounds on the number of dates that are left. -/
def sizeBounds (cursor : Cursor) : Nat × Nat :=
  if cursor.finished then (0, 0)
  else (0, min cursor.remaining (cursor.query.horizon - cursor.offset))

theorem remaining_next {cursor after : Cursor} {date : Date}
    (found : cursor.next = (some date, after)) : after.remaining + 1 = cursor.remaining := by
  unfold next at found
  split at found
  · simp at found
  · next unfinished =>
    split at found
    · simp only [Prod.mk.injEq, Option.some.injEq] at found
      simp only [Bool.or_eq_true, beq_iff_eq, not_or] at unfinished
      rw [← found.2]
      simp only
      omega
    · simp at found

def dates (cursor : Cursor) : List Date :=
  match found : cursor.next with
  | (some date, after) =>
    have := remaining_next found
    date :: after.dates
  | (none, _) => []
termination_by cursor.remaining

end Cursor

namespace Query

/-- The walk before its first step. -/
def cursor (query : Query) : Cursor :=
  { query, offset := 0, remaining := query.allowance, finished := false }

/-- The dates of the query, in order. -/
def dates (query : Query) : List Date := query.cursor.dates

end Query

end Cadence
