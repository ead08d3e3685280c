import Cadence.Proofs.Text.Division
import Cadence.Rule.Pattern

/-!
# Reading under a policy

A reader of patterns that has its policy from the start.  At a fault the strict reader stops, and
looks at nothing behind it; the lenient one goes on with the default.

`Pattern.read` instead goes on at every fault and notes the first one.  Settling its reading by a
policy gives what the reader with that policy gives (`Pattern.Reader.run_eq_parseWith`): to settle
two readings one after the other is to settle the first and then the second
(`Reading.settle_bind`), so each part of the one reader settles to the same part of the other.
-/

namespace Cadence

namespace Reading

variable {α β : Type} {policy : Policy} {input : String}

theorem settle_pure (a : α) : (pure a : Reading α).settle policy input = pure a := by
  cases policy <;> rfl

theorem settle_bind (first : Reading α) (next : α → Reading β) :
    (first >>= next).settle policy input =
      first.settle policy input >>= fun a => (next a).settle policy input := by
  cases policy with
  | lenient => rfl
  | strict =>
    obtain ⟨value, fault?⟩ := first
    cases fault? with
    | none => rfl
    | some fault => rfl

end Reading

namespace Pattern

/-- A reader of one text under a policy. -/
structure Reader where
  input : String
  policy : Policy

namespace Reader

variable {α : Type} (reader : Reader)

/-- Stops at a fault, or goes on with what stands in for the faulty part. -/
def recover (fault : Fault) (default : α) : Except Malformed α :=
  match reader.policy with
  | .lenient => .ok default
  | .strict => .error { fault, input := reader.input }

def field (field : PatternField) (text : List Char) (found : Option α) (default : α) :
    Except Malformed α :=
  match found with
  | some value => .ok value
  | none => reader.recover (.invalidField field (.ofList text)) default

def checkArguments (keyword : Keyword) (limit : Nat) (arguments : List (List Char)) :
    Except Malformed Unit :=
  if limit < arguments.length then
    reader.recover (.tooManyArguments keyword limit arguments.length) ()
  else .ok ()

def interval : Option (List Char) → Except Malformed Count
  | none => .ok .one
  | some text => reader.field .interval text (Count.read? text) .one

def dayOfMonth (text : List Char) : Except Malformed Nat :=
  let found := (Text.numeral? text).filter fun day => 1 ≤ day && day ≤ Rule.longestMonth
  reader.field .dayOfMonth text found 1

/-- The days of a list, each item added to those before it. -/
def days (before : WeekdaySet) : List (List Char) → Except Malformed WeekdaySet
  | [] => .ok before
  | item :: items =>
    match Text.numeral? item >>= Weekday.ofNumber? with
    | some day => days (before.insert day) items
    | none => do
      reader.recover (.invalidField .weekday (.ofList item)) ()
      days before items

def dayList : Option (List Char) → Except Malformed WeekdaySet
  | none | some [] => reader.recover .missingDayList (.single .monday)
  | some text => do
    let days ← reader.days ∅ ((text.splitOn ',').map Text.trim)
    return if days.isEmpty then .single .monday else days

def daily (arguments : List (List Char)) : Except Malformed Rule := do
  reader.checkArguments .daily 1 arguments
  return .daily (← reader.interval arguments[0]?)

def weekdays (arguments : List (List Char)) : Except Malformed Rule := do
  reader.checkArguments .weekdays 0 arguments
  return .weekdays

def weekly (arguments : List (List Char)) : Except Malformed Rule := do
  reader.checkArguments .weekly 2 arguments
  let interval ← reader.interval arguments[0]?
  let days ← reader.dayList arguments[1]?
  return .weekly interval days

def monthly : List (List Char) → Except Malformed Rule
  | [] => return .dayOfMonth (← reader.recover .missingDayOfMonth 1)
  | [day] => return .dayOfMonth (← reader.dayOfMonth day)
  | ordinal :: weekday :: more => do
    reader.checkArguments .monthly 2 (ordinal :: weekday :: more)
    let ordinal ←
      reader.field .ordinal ordinal (Text.numeral? ordinal >>= Ordinal.ofNumber?) .first
    let weekday ←
      reader.field .weekday weekday (Text.numeral? weekday >>= Weekday.ofNumber?) .monday
    return .weekdayOfMonth ordinal weekday

def yearly (arguments : List (List Char)) : Except Malformed Rule := do
  reader.checkArguments .yearly 1 arguments
  match arguments with
  | [] => reader.recover .missingMonthDay (.anniversary .january 1)
  | date :: _ =>
    let (month, day) := (Text.cutFirst '-' date).getD (date, [])
    let found := Text.numeral? (Text.trim month) >>= Month.ofNumber?
    let month ← reader.field .month month found .january
    let day ← reader.dayOfMonth (Text.trim day)
    -- The lenient reader does not look at whether the month has the day.
    if reader.policy = .strict ∧ month.longest < day then
      throw { fault := .impossibleDay month day, input := reader.input }
    return .anniversary month day

def run : Except Malformed Rule :=
  let text := reader.input.toList
  if Text.trim text = [] then reader.recover .emptyPattern .everyDay
  else
    let word := (parts text).headD []
    let arguments := (parts text).tail
    match Keyword.ofWord? word with
    | some .daily => reader.daily arguments
    | some .weekdays => reader.weekdays arguments
    | some .weekly => reader.weekly arguments
    | some .monthly => reader.monthly arguments
    | some .yearly => reader.yearly arguments
    | none => reader.recover (.unknownKeyword (.ofList word)) .everyDay

/-! ## Settled readings -/

/-- The reading, settled by the policy of the reader. -/
def settled (reading : Reading α) : Except Malformed α := reading.settle reader.policy reader.input

variable {reader}

theorem settled_pure (a : α) : reader.settled (pure a) = pure a := Reading.settle_pure a

theorem settled_bind {β : Type} (first : Reading α) (next : α → Reading β) :
    reader.settled (first >>= next) =
      reader.settled first >>= fun a => reader.settled (next a) :=
  Reading.settle_bind first next

theorem settled_standIn (fault : Fault) (default : α) :
    reader.settled (.standIn fault default) = reader.recover fault default := by
  obtain ⟨input, policy⟩ := reader
  cases policy <;> rfl

theorem settled_readField (field : PatternField) (text : List Char) (found : Option α)
    (default : α) :
    reader.settled (readField field text found default) =
      reader.field field text found default := by
  cases found with
  | none => exact settled_standIn _ _
  | some value => exact settled_pure value

theorem settled_checkArguments (keyword : Keyword) (limit : Nat)
    (arguments : List (List Char)) :
    reader.settled (Pattern.checkArguments keyword limit arguments) =
      reader.checkArguments keyword limit arguments := by
  rw [Pattern.checkArguments, Reading.note, checkArguments]
  split
  · exact settled_standIn _ _
  · exact settled_pure ()

theorem settled_readInterval (text : Option (List Char)) :
    reader.settled (readInterval text) = reader.interval text := by
  cases text with
  | none => exact settled_pure _
  | some text => exact settled_readField _ _ _ _

theorem settled_readDays (before : WeekdaySet) (items : List (List Char)) :
    reader.settled (readDays before items) = reader.days before items := by
  induction items generalizing before with
  | nil => exact settled_pure before
  | cons item items ih =>
    rw [readDays, days, settled_bind, settled_readField]
    simp only [ih]
    cases found : Text.numeral? item >>= Weekday.ofNumber? with
    | some day => rfl
    | none =>
      obtain ⟨input, policy⟩ := reader
      cases policy <;> rfl

theorem settled_readDayList (text : Option (List Char)) :
    reader.settled (readDayList text) = reader.dayList text := by
  match text with
  | none | some [] => exact settled_standIn _ _
  | some (c :: rest) =>
    simp only [readDayList, dayList, settled_bind, settled_readDays, settled_pure]
    rfl

theorem settled_readDaily (arguments : List (List Char)) :
    reader.settled (readDaily arguments) = reader.daily arguments := by
  simp only [readDaily, daily, settled_bind, settled_checkArguments, settled_readInterval,
    settled_pure]

theorem settled_readWeekdays (arguments : List (List Char)) :
    reader.settled (readWeekdays arguments) = reader.weekdays arguments := by
  simp only [readWeekdays, weekdays, settled_bind, settled_checkArguments, settled_pure]

theorem settled_readWeekly (arguments : List (List Char)) :
    reader.settled (readWeekly arguments) = reader.weekly arguments := by
  simp only [readWeekly, weekly, settled_bind, settled_checkArguments, settled_readInterval,
    settled_readDayList, settled_pure]

theorem settled_readMonthly (arguments : List (List Char)) :
    reader.settled (readMonthly arguments) = reader.monthly arguments := by
  match arguments with
  | [] =>
    obtain ⟨input, policy⟩ := reader
    cases policy <;> rfl
  | [day] =>
    simp only [readMonthly, monthly, settled_bind, settled_pure]
    simp only [readDayOfMonth, dayOfMonth, settled_readField]
  | ordinal :: weekday :: more =>
    simp only [readMonthly, monthly, settled_bind, settled_checkArguments, settled_readField,
      settled_pure]

theorem settled_note_bind (condition : Prop) [Decidable condition] (fault : Fault) (a : α) :
    reader.settled (.note condition fault >>= fun _ => pure a) = do
      if reader.policy = .strict ∧ condition then
        throw { fault, input := reader.input }
      return a := by
  obtain ⟨input, policy⟩ := reader
  by_cases holds : condition
  · cases policy <;> simp [holds] <;> rfl
  · cases policy <;> simp [holds] <;> rfl

theorem settled_readYearly (arguments : List (List Char)) :
    reader.settled (readYearly arguments) = reader.yearly arguments := by
  cases arguments with
  | nil => exact settled_standIn _ _
  | cons date more =>
    rw [readYearly, yearly]
    generalize (Text.cutFirst '-' date).getD (date, []) = cut
    obtain ⟨month, day⟩ := cut
    simp only [settled_bind, settled_checkArguments, settled_readField, readDayOfMonth, dayOfMonth,
      ← settled_note_bind]

/-- The reader with a policy gives what the policy makes of the reading. -/
theorem run_eq_parseWith (reader : Reader) :
    reader.run = Rule.parseWith reader.policy reader.input := by
  show _ = reader.settled (read reader.input.toList)
  rw [run, read]
  split
  · exact (settled_standIn _ _).symm
  · have nonempty : parts reader.input.toList ≠ [] := by simp [parts]
    obtain ⟨word, arguments, split⟩ := List.exists_cons_of_ne_nil nonempty
    simp only [split, List.headD_cons, List.tail_cons]
    cases found : Keyword.ofWord? word with
    | none => exact (settled_standIn _ _).symm
    | some keyword =>
      cases keyword with
      | daily => exact (settled_readDaily arguments).symm
      | weekdays => exact (settled_readWeekdays arguments).symm
      | weekly => exact (settled_readWeekly arguments).symm
      | monthly => exact (settled_readMonthly arguments).symm
      | yearly => exact (settled_readYearly arguments).symm

/-- The lenient reader stops at no fault. -/
theorem run_lenient (text : String) : run ⟨text, .lenient⟩ = .ok (Rule.parse text) :=
  run_eq_parseWith ⟨text, .lenient⟩

end Reader

end Pattern

end Cadence
