import Cadence.Calendar.DateText
import Cadence.Proofs.Calendar.Next
import Cadence.Proofs.Text.Numeral
import Mathlib.Data.Option.Basic

/-!
# Which texts are dates

`IsDateText` says what the text of a date looks like without reading it: a year, a month and a day
with hyphens between, each of them after any blanks.  A signed year may have any number of digits,
so the hyphens are not found by searching for them: a number ends where its digits end.

* `Date.read?_eq_some_iff`: a text is read as a date if and only if it is a text of that date.
* `isDateText_text`: what is written for a date is a text of it, under both spacings.
-/

namespace Cadence

open Text (isBlank IsDigits)

namespace DateText

variable {spacing : Spacing} {text front gap rest digits : List Char}

/-! ## Parts of a date -/

/-- The blanks that may stand before a hyphen and at the end. -/
def IsGap : Spacing → List Char → Prop
  | .tight, gap => gap = []
  | .loose, gap => ∀ c ∈ gap, isBlank c = true

/-- The text is a year: up to four digits, or a sign and any number of them. -/
inductive IsYear : List Char → Int → Prop where
  | unsigned {digits : List Char} {n : Nat} (value : IsDigits digits n)
      (short : digits.length ≤ 4) : IsYear digits n
  | plus {digits : List Char} {n : Nat} (value : IsDigits digits n) : IsYear ('+' :: digits) n
  | minus {digits : List Char} {n : Nat} (value : IsDigits digits n) : IsYear ('-' :: digits) (-n)

/-- The text is a month or a day: one digit or two. -/
def IsTwoDigits (text : List Char) (n : Nat) : Prop :=
  IsDigits text n ∧ text.length ≤ 2

/-- After some blanks or none the text denotes the value. -/
def AfterBlanks {α : Type} (Denotes : List Char → α → Prop) (text : List Char) (a : α) : Prop :=
  ∃ before core, text = before ++ core ∧ (∀ c ∈ before, isBlank c = true) ∧ Denotes core a

theorem IsYear.ne_nil {year : Int} (isYear : IsYear text year) : text ≠ [] := by
  cases isYear with
  | unsigned isDigits => exact isDigits.1
  | plus | minus => exact List.cons_ne_nil _ _

theorem IsYear.not_blank {year : Int} (isYear : IsYear text year) {c : Char} (member : c ∈ text) :
    isBlank c = false := by
  cases isYear with
  | unsigned isDigits => exact Text.isBlank_of_isDigit (isDigits.2.1 c member)
  | plus isDigits | minus isDigits =>
    rcases List.mem_cons.mp member with rfl | digit
    · decide
    · exact Text.isBlank_of_isDigit (isDigits.2.1 c digit)

theorem AfterBlanks.of {α : Type} {Denotes : List Char → α → Prop} {a : α}
    (denotes : Denotes text a) : AfterBlanks Denotes text a :=
  ⟨[], text, rfl, nofun, denotes⟩

end DateText

open DateText

/-- The text is one of the date. -/
inductive IsDateText (spacing : Spacing) (text : List Char) (date : Date) : Prop where
  | intro {year month day first second last : List Char}
      (isYear : AfterBlanks IsYear year date.year)
      (isMonth : AfterBlanks IsTwoDigits month date.month.number)
      (isDay : AfterBlanks IsTwoDigits day date.day)
      (firstGap : IsGap spacing first) (secondGap : IsGap spacing second)
      (lastGap : IsGap spacing last)
      (joined : text = year ++ (first ++ '-' :: (month ++ (second ++ '-' :: (day ++ last)))))

namespace DateText

/-! ## Readers of the parts -/

/-- The reader takes off the front of a text what denotes a value.  It is sure to stop there if no
digit follows, since it takes as many digits as it can. -/
structure Takes {α : Type} (take? : List Char → Option (α × List Char))
    (Denotes : List Char → α → Prop) : Prop where
  sound : ∀ {text a rest}, take? text = some (a, rest) →
    ∃ front, text = front ++ rest ∧ Denotes front a
  complete : ∀ {front a rest}, Denotes front a → (∀ c ∈ rest.head?, c.isDigit = false) →
    take? (front ++ rest) = some (a, rest)

theorem takes_number (width : Nat) :
    Takes (takeNumber? width) fun text n => IsDigits text n ∧ text.length ≤ width := by
  constructor
  · intro text n rest found
    obtain ⟨value, isDigits, same⟩ := Option.map_eq_some_iff.mp found
    obtain ⟨rfl, rfl⟩ := Prod.mk.inj same
    have taken : (text.take width).takeWhile Char.isDigit <+: text.take width :=
      List.takeWhile_prefix Char.isDigit
    refine ⟨(text.take width).takeWhile Char.isDigit, ?_,
      Text.digits?_eq_some_iff.mp isDigits, ?_⟩
    · exact (List.prefix_iff_eq_append.mp (taken.trans (List.take_prefix width text))).symm
    · exact Nat.le_trans taken.length_le (List.length_take_le width text)
  · rintro digits n rest ⟨isDigits, short⟩ stops
    -- After the digits stands a character that is none, or the width or the text ends.
    have ended : (rest.take (width - digits.length)).takeWhile Char.isDigit = [] := by
      cases rest with
      | nil => rw [List.take_nil, List.takeWhile_nil]
      | cons c rest =>
        cases width - digits.length with
        | zero => rfl
        | succ k => rw [List.take_succ_cons, List.takeWhile_cons_of_neg (by simp [stops c rfl])]
    have taken : ((digits ++ rest).take width).takeWhile Char.isDigit = digits := by
      rw [List.take_append, List.take_of_length_le short,
        List.takeWhile_append_of_pos isDigits.2.1, ended, List.append_nil]
    rw [takeNumber?, taken, Text.digits?_eq_some_iff.mpr isDigits, Option.map_some,
      List.drop_left]

/-- The digits of a signed year may fill the whole rest of the text. -/
theorem takeNumber?_length {n : Nat} (isDigits : IsDigits digits n)
    (stops : ∀ c ∈ rest.head?, c.isDigit = false) :
    takeNumber? (digits ++ rest).length (digits ++ rest) = some (n, rest) := by
  have short : digits.length ≤ (digits ++ rest).length := by
    rw [List.length_append]
    exact Nat.le_add_right _ _
  exact (takes_number _).complete ⟨isDigits, short⟩ stops

/-- Blanks in front of a text that starts with none are all that is cut from it. -/
theorem trimStart_blanks {before : List Char} {c : Char} (blank : ∀ c ∈ before, isBlank c = true)
    (starts : isBlank c = false) : Text.trimStart (before ++ c :: rest) = c :: rest := by
  rw [Text.trimStart_append blank, Text.trimStart_eq_self]
  simpa using starts

/-- A front that is found behind the blanks stands after them in the whole text. -/
theorem exists_afterBlanks {α : Type} {Denotes : List Char → α → Prop} {a : α} {core : List Char}
    (trimmed : Text.trimStart text = core ++ rest) (denotes : Denotes core a) :
    ∃ front, text = front ++ rest ∧ AfterBlanks Denotes front a := by
  obtain ⟨before, split, blank⟩ := Text.exists_eq_append_trimStart text
  refine ⟨before ++ core, ?_, before, core, rfl, blank, denotes⟩
  rw [List.append_assoc, ← trimmed]
  exact split

theorem takes_twoDigits : Takes takeTwoDigits? (AfterBlanks IsTwoDigits) := by
  constructor
  · intro text n rest found
    obtain ⟨core, trimmed, denotes⟩ := (takes_number 2).sound found
    exact exists_afterBlanks trimmed denotes
  · rintro front n rest ⟨before, core, rfl, blank, denotes⟩ stops
    have taken := (takes_number 2).complete denotes stops
    obtain ⟨c, more, rfl, digit⟩ := denotes.1.exists_cons
    rw [List.append_assoc, takeTwoDigits?, List.cons_append,
      trimStart_blanks blank (Text.isBlank_of_isDigit digit)]
    exact taken

theorem exists_digits_of_map {width : Nat} {year : Int} (ofNat : Nat → Int)
    (found : (takeNumber? width text).map (fun (n, rest) => (ofNat n, rest)) = some (year, rest)) :
    ∃ digits n, text = digits ++ rest ∧ IsDigits digits n ∧ digits.length ≤ width ∧
      year = ofNat n := by
  obtain ⟨⟨n, after⟩, taken, same⟩ := Option.map_eq_some_iff.mp found
  obtain ⟨rfl, rfl⟩ := Prod.mk.inj same
  obtain ⟨digits, split, isDigits, short⟩ := (takes_number width).sound taken
  exact ⟨digits, n, split, isDigits, short, rfl⟩

theorem takeYear?_sound {year : Int} (found : takeYear? text = some (year, rest)) :
    ∃ core, Text.trimStart text = core ++ rest ∧ IsYear core year := by
  unfold takeYear? at found
  split at found
  · next digits trimmed =>
    obtain ⟨digits, n, rfl, isDigits, -, rfl⟩ := exists_digits_of_map (fun n => -n) found
    exact ⟨'-' :: digits, trimmed, .minus isDigits⟩
  · next digits trimmed =>
    obtain ⟨digits, n, rfl, isDigits, -, rfl⟩ := exists_digits_of_map (fun n => n) found
    exact ⟨'+' :: digits, trimmed, .plus isDigits⟩
  · obtain ⟨digits, n, trimmed, isDigits, short, rfl⟩ := exists_digits_of_map (fun n => n) found
    exact ⟨digits, trimmed, .unsigned isDigits short⟩

theorem takes_year : Takes takeYear? (AfterBlanks IsYear) := by
  constructor
  · intro text year rest found
    obtain ⟨core, trimmed, denotes⟩ := takeYear?_sound found
    exact exists_afterBlanks trimmed denotes
  · rintro front year rest ⟨before, core, rfl, blank, denotes⟩ stops
    rw [List.append_assoc, takeYear?]
    cases denotes with
    | unsigned isDigits short =>
      have taken := (takes_number 4).complete ⟨isDigits, short⟩ stops
      obtain ⟨c, more, rfl, digit⟩ := isDigits.exists_cons
      rw [List.cons_append, trimStart_blanks blank (Text.isBlank_of_isDigit digit)]
      -- A digit is no sign.
      split
      · next same => cases same; contradiction
      · next same => cases same; contradiction
      · rw [← List.cons_append, taken, Option.map_some]
    | plus isDigits | minus isDigits =>
      rw [List.cons_append, trimStart_blanks blank (by decide)]
      simp only [takeNumber?_length isDigits stops, Option.map_some]

/-! ## Gaps -/

theorem skipGap_eq_nil_iff : skipGap spacing text = [] ↔ IsGap spacing text := by
  cases spacing with
  | tight => rfl
  | loose =>
    constructor
    · intro empty
      obtain ⟨gap, split, blank⟩ := Text.exists_eq_append_trimStart text
      rw [← skipGap, empty, List.append_nil] at split
      exact split ▸ blank
    · intro blank
      rw [skipGap, ← List.append_nil text, Text.trimStart_append blank]
      rfl

theorem takeHyphen?_eq_some_iff :
    takeHyphen? spacing text = some rest ↔
      ∃ gap, IsGap spacing gap ∧ text = gap ++ '-' :: rest := by
  cases spacing with
  | tight =>
    simp only [IsGap, exists_eq_left, List.nil_append, takeHyphen?, skipGap]
    split <;> simp_all [eq_comm]
  | loose =>
    constructor
    · intro found
      obtain ⟨gap, split, blank⟩ := Text.exists_eq_append_trimStart text
      unfold takeHyphen? at found
      split at found
      · next after trimmed =>
        obtain rfl := Option.some.inj found
        exact ⟨gap, blank, trimmed ▸ split⟩
      · contradiction
    · rintro ⟨gap, blank, rfl⟩
      simp only [takeHyphen?, skipGap, trimStart_blanks blank (by decide : isBlank '-' = false)]

/-- No digit follows a number if no digit follows the gap after it. -/
theorem not_isDigit_of_isGap (isGap : IsGap spacing gap)
    (stops : ∀ c ∈ rest.head?, c.isDigit = false) :
    ∀ c ∈ (gap ++ rest).head?, c.isDigit = false := by
  cases gap with
  | nil => exact stops
  | cons c gap =>
    cases spacing with
    | tight => cases isGap
    | loose =>
      rintro c ⟨⟩
      have blank := isGap c List.mem_cons_self
      rw [Bool.eq_false_iff]
      intro digit
      rw [Text.isBlank_of_isDigit digit] at blank
      contradiction

end DateText

/-! ## Dates by their parts -/

theorem Month.number_lt (month : Month) : month.number < 100 := by cases month <;> decide

namespace Date

variable {spacing : Spacing} {text : List Char} {date : Date}

theorem ofYearMonthDay?_eq_some_iff {year : Int} {month day : Nat} :
    ofYearMonthDay? year month day = some date ↔
      date.year = year ∧ date.month.number = month ∧ date.day = day := by
  simp only [ofYearMonthDay?, Option.bind_eq_bind, Option.bind_eq_some_iff,
    Month.ofNumber?_eq_some_iff, ofCivil?_eq_some_iff]
  constructor
  · rintro ⟨month, rfl, same⟩
    rw [Date.year, Date.month, Date.day, same]
    exact ⟨rfl, rfl, rfl⟩
  · rintro ⟨rfl, rfl, rfl⟩
    exact ⟨date.month, rfl, rfl⟩

/-! ## The reader of dates -/

theorem read?_of_isDateText (isText : IsDateText spacing text date) :
    read? spacing text = some date := by
  have hyphen : ∀ rest, ∀ c ∈ ('-' :: rest : List Char).head?, c.isDigit = false := by
    rintro rest c ⟨⟩
    rfl
  -- Each number stops at the gap after it, at the hyphen, or at the end.
  obtain ⟨isYear, isMonth, isDay, firstGap, secondGap, lastGap, rfl⟩ := isText
  have stops := not_isDigit_of_isGap lastGap (by simp : ∀ c ∈ ([] : List Char).head?, _)
  rw [List.append_nil] at stops
  simp only [read?, Option.bind_eq_bind, Option.bind_some,
    takes_year.complete isYear (not_isDigit_of_isGap firstGap (hyphen _)),
    takeHyphen?_eq_some_iff.mpr ⟨_, firstGap, rfl⟩,
    takes_twoDigits.complete isMonth (not_isDigit_of_isGap secondGap (hyphen _)),
    takeHyphen?_eq_some_iff.mpr ⟨_, secondGap, rfl⟩, takes_twoDigits.complete isDay stops,
    (Option.guard_eq_some' ()).mpr (skipGap_eq_nil_iff.mpr lastGap)]
  exact ofYearMonthDay?_eq_some_iff.mpr ⟨rfl, rfl, rfl⟩

theorem read?_eq_some_iff :
    read? spacing text = some date ↔ IsDateText spacing text date := by
  constructor
  · intro found
    simp only [read?, Option.bind_eq_bind, Option.bind_eq_some_iff, Prod.exists,
      takeHyphen?_eq_some_iff, Option.guard_eq_some', skipGap_eq_nil_iff] at found
    obtain ⟨year, text₁, tookYear, text₂, ⟨first, firstGap, rfl⟩, month, text₃, tookMonth, text₄,
      ⟨second, secondGap, rfl⟩, day, last, tookDay, _, lastGap, found⟩ := found
    obtain ⟨rfl, rfl, rfl⟩ := ofYearMonthDay?_eq_some_iff.mp found
    obtain ⟨yearText, rfl, isYear⟩ := takes_year.sound tookYear
    obtain ⟨monthText, rfl, isMonth⟩ := takes_twoDigits.sound tookMonth
    obtain ⟨dayText, rfl, isDay⟩ := takes_twoDigits.sound tookDay
    exact ⟨isYear, isMonth, isDay, firstGap, secondGap, lastGap, rfl⟩
  · exact read?_of_isDateText

end Date

/-! ## Dates as they are written -/

namespace DateText

theorem toList_yearText (year : Int) :
    (yearText year).toList =
      let digits := (Text.zeroPadded 4 year.natAbs).toList
      if year < 0 then '-' :: digits else if year ≤ 9999 then digits else '+' :: digits := by
  simp only [yearText]
  split
  · rw [String.toList_append]
    rfl
  · split
    · rfl
    · rw [String.toList_append]
      rfl

theorem isYear_yearText (year : Int) : IsYear (yearText year).toList year := by
  have isDigits := Text.isDigits_zeroPadded 4 year.natAbs
  simp only [toList_yearText]
  split
  · next negative =>
    have isYear := IsYear.minus isDigits
    rwa [Int.ofNat_natAbs_of_nonpos (Int.le_of_lt negative), Int.neg_neg] at isYear
  · next natural =>
    have value : (year.natAbs : Int) = year := Int.natAbs_of_nonneg (Int.not_lt.mp natural)
    split
    · next small =>
      have short : (Nat.toDigits 10 year.natAbs).length ≤ 4 :=
        (Nat.length_toDigits_le_iff (by decide) (by decide)).mpr (by omega)
      have isYear := IsYear.unsigned isDigits (Nat.le_of_eq (Text.length_zeroPadded short))
      rwa [value] at isYear
    · have isYear := IsYear.plus isDigits
      rwa [value] at isYear

/-- The year has a sign if and only if it lies outside the years of four digits. -/
theorem head?_yearText (year : Int) :
    ((yearText year).toList.head? = some '-' ↔ year < 0) ∧
      ((yearText year).toList.head? = some '+' ↔ 9999 < year) := by
  obtain ⟨c, rest, written, digit⟩ := (Text.isDigits_zeroPadded 4 year.natAbs).exists_cons
  simp only [toList_yearText, written]
  split
  · next negative =>
    simp [negative]
    omega
  · next natural =>
    split
    · next small =>
      have noMinus : c ≠ '-' := by rintro rfl; contradiction
      have noPlus : c ≠ '+' := by rintro rfl; contradiction
      simp [natural, small, noMinus, noPlus]
    · next large =>
      simp [natural]
      omega

theorem isTwoDigits_zeroPadded {n : Nat} (small : n < 100) :
    IsTwoDigits (Text.zeroPadded 2 n).toList n := by
  have short : (Nat.toDigits 10 n).length ≤ 2 :=
    (Nat.length_toDigits_le_iff (by decide) (by decide)).mpr small
  exact ⟨Text.isDigits_zeroPadded 2 n, Nat.le_of_eq (Text.length_zeroPadded short)⟩

end DateText

namespace Date

theorem toList_text (date : Date) :
    date.text.toList = (yearText date.year).toList ++
      '-' :: ((Text.zeroPadded 2 date.month.number).toList ++
        '-' :: (Text.zeroPadded 2 date.day).toList) := by
  simp [Date.text, String.toList_append]

theorem isDateText_text (date : Date) (spacing : Spacing) :
    IsDateText spacing date.text.toList date := by
  have day : date.day < 100 :=
    Nat.lt_of_le_of_lt (Nat.le_trans date.day_bounds.2 (Month.length_le _ _)) (by decide)
  have gap : IsGap spacing [] := by cases spacing <;> simp [IsGap]
  refine ⟨.of (isYear_yearText date.year), .of (isTwoDigits_zeroPadded date.month.number_lt),
    .of (isTwoDigits_zeroPadded day), gap, gap, gap, ?_⟩
  rw [toList_text, List.nil_append, List.nil_append, List.append_nil]

/-- What is written for a date holds no blanks. -/
theorem isBlank_of_mem_text {date : Date} {c : Char} (member : c ∈ date.text.toList) :
    isBlank c = false := by
  have plain : ∀ n, c ∈ (Text.zeroPadded 2 n).toList → isBlank c = false := fun n digit =>
    Text.isBlank_of_isDigit ((Text.isDigits_zeroPadded 2 n).2.1 c digit)
  simp only [toList_text, List.mem_append, List.mem_cons] at member
  rcases member with year | rfl | month | rfl | day
  · exact (isYear_yearText date.year).not_blank year
  · decide
  · exact plain _ month
  · decide
  · exact plain _ day

theorem trim_text (date : Date) : Text.trim date.text.toList = date.text.toList :=
  Text.trim_eq_self fun _ => isBlank_of_mem_text

theorem parse_text (date : Date) : parse date.text = .ok date := by
  rw [parse, trim_text, read?_of_isDateText (isDateText_text date .tight)]

/-- A date is written with a sign if and only if its year is not one of four digits. -/
theorem head?_text (date : Date) :
    (date.text.toList.head? = some '-' ↔ date.year < 0) ∧
      (date.text.toList.head? = some '+' ↔ 9999 < date.year) := by
  obtain ⟨c, rest, written⟩ := List.exists_cons_of_ne_nil (isYear_yearText date.year).ne_nil
  have same : date.text.toList.head? = (yearText date.year).toList.head? := by
    rw [toList_text, written]
    rfl
  rw [same]
  exact head?_yearText date.year

end Date

end Cadence
