import Cadence.Calendar.Date
import Cadence.Count

/-!
# Endings

When a series stops.  An ending stands beside the rule and not within it, since how a series repeats
and when it stops vary apart from each other.  A count is of the whole series, so it takes the
occurrences before the anchor into account.
-/

namespace Cadence

inductive Ending where
  | never
  /-- The series has this many occurrences. -/
  | after (count : Count)
  /-- The series has no occurrence later than this date. -/
  | on (date : Date)
deriving DecidableEq

inductive EndingKind where
  | never
  | after
  | on
deriving DecidableEq, Repr

namespace EndingKind

/-- The kind as it is written. -/
def text : EndingKind → String
  | .never => "never"
  | .after => "after"
  | .on => "on"

def all : List EndingKind := [.never, .after, .on]

/-- The kind that a word spells, in small letters. -/
def ofWord? (word : List Char) : Option EndingKind :=
  all.find? fun kind => kind.text.toList == word

end EndingKind

namespace Ending

instance : Inhabited Ending := ⟨never⟩

def kind : Ending → EndingKind
  | never => .never
  | after _ => .after
  | on _ => .on

/-- How many occurrences may follow the first `produced` ones, if the ending limits their number. -/
def remaining? (ending : Ending) (produced : Nat) : Option Nat :=
  match ending with
  | after count => some (count.value - produced)
  | never | on _ => none

/-- Whether `date` is later than the last date that the ending allows. -/
def isPast (ending : Ending) (date : Date) : Bool :=
  match ending with
  | on last => last < date
  | never | after _ => false

end Ending

end Cadence
