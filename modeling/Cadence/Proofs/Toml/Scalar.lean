import Cadence.Proofs.Text.Numeral
import Cadence.Proofs.Toml.Quoted
import Cadence.Toml.Value

/-!
# Scalars, read back

A record holds texts and natural numbers.  Either is written so that a document's reader takes it
off the front of a line whole: a string ends at its closing quotes, and a numeral, which has no
zeros in front, where the line ends.

* `takeScalar?_document`: a scalar in range is read back as what it is.
* `takeValue?_of_takeScalar?`: so it is as a value, since no list and no table starts as it does.
-/

namespace Cadence.Toml

variable {text word rest : List Char} {n : Nat} {value : Datum} {scalar : Scalar}

/-! ## Numbers -/

theorem ofDigits_of_isDigits (digits : Text.IsDigits text n) : Text.ofDigits 10 text = n := by
  rw [← digits.2.2, Text.ofDigits, Nat.ofDigitChars_eq_foldl]
  refine List.foldl_ext _ _ _ fun value c member => ?_
  rw [Text.hexDigitValue, if_pos (digits.2.1 c member)]

theorem isDigits_toDigits (n : Nat) : Text.IsDigits (Nat.toDigits 10 n) n :=
  Text.digits?_eq_some_iff.mp (Text.digits?_toDigits n)

/-- A number is written without zeros in front. -/
theorem toDigits_ne_zero_cons {c : Char} : Nat.toDigits 10 n ≠ '0' :: c :: rest := by
  induction n using Nat.strongRecOn generalizing c rest with
  | ind n ih =>
    intro padded
    by_cases small : n < 10
    · rw [Nat.toDigits_of_lt_base small] at padded
      simp at padded
    rw [Nat.toDigits_of_base_le (by decide) (Nat.le_of_not_lt small)] at padded
    cases front : Nat.toDigits 10 (n / 10) with
    | nil => exact Nat.toDigits_ne_nil front
    | cons d tail =>
      rw [front, List.cons_append, List.cons.injEq] at padded
      rw [padded.1] at front
      cases tail with
      | nil =>
        have value := Nat.ofDigitChars_toDigits (b := 10) (n := n / 10) (by decide) (by decide)
        rw [front, Nat.ofDigitChars_cons, Nat.ofDigitChars_nil] at value
        simp at value
        omega
      | cons d tail => exact ih (n / 10) (by omega) front

theorem cutSign_of_isDigits (digits : Text.IsDigits text n) : cutSign text = (false, text) := by
  have unsigned {sign : Char} (isSign : sign.isDigit = false) : ∀ rest, text ≠ sign :: rest := by
    rintro rest rfl
    exact absurd (digits.2.1 sign List.mem_cons_self) (Bool.eq_false_iff.mp isSign)
  exact cutSign.eq_3 text (unsigned rfl) (unsigned rfl)

theorem grouped?_of_isDigits (digits : Text.IsDigits text n) :
    grouped? Char.isDigit text = some text := by
  have whole : text.splitOn '_' = [text] := by
    refine Text.splitOn_eq_iff.mpr ⟨List.cons_ne_nil _ _, ?_, List.intercalate_singleton⟩
    intro piece member underscore
    rw [List.mem_singleton.mp member] at underscore
    exact absurd (digits.2.1 _ underscore) (by decide)
  have nonempty : text.isEmpty = false := List.isEmpty_eq_false_iff.mpr digits.1
  have all : text.all Char.isDigit = true := List.all_eq_true.mpr digits.2.1
  simp [grouped?, whole, nonempty, all]

theorem integer?_toDigits (n : Nat) : integer? (Nat.toDigits 10 n) = some (n : Int) := by
  have digits := isDigits_toDigits n
  have whole : wholeDigits? (Nat.toDigits 10 n) = some (Nat.toDigits 10 n) := by
    rw [wholeDigits?]
    · exact grouped?_of_isDigits digits
    · exact fun _ _ => toDigits_ne_zero_cons
  rw [integer?]
  · simp [cutSign_of_isDigits digits, whole, ofDigits_of_isDigits digits, signed]
  all_goals exact fun _ => toDigits_ne_zero_cons

/-- Every number of 64 bits can be read. -/
theorem fitsWord_of_lt (small : n < UInt64.size) : fitsWord n = true := by
  have negative : -Int.ofNat (Nat.pow 2 127) ≤ 0 := Int.neg_nonpos_of_nonneg (Int.natCast_nonneg _)
  have limit : UInt64.size ≤ Nat.pow 2 128 := by decide
  rw [fitsWord, Bool.and_eq_true, decide_eq_true_eq, decide_eq_true_eq]
  refine ⟨Int.le_trans negative (Int.natCast_nonneg n), ?_⟩
  rw [Int.ofNat_eq_natCast, Int.ofNat_lt]
  exact Nat.lt_of_lt_of_le small limit

theorem bare?_toDigits (fits : fitsWord n = true) :
    bare? (Nat.toDigits 10 n) = some (.integer n) := by
  obtain ⟨c, tail, shape, digit⟩ := (isDigits_toDigits n).exists_cons
  have word {first : Char} {letters : List Char} (letter : first.isDigit = false) :
      (Nat.toDigits 10 n == first :: letters) = false := by
    rw [beq_eq_false_iff_ne, shape]
    rintro same
    rw [(List.cons.inj same).1, letter] at digit
    exact Bool.false_ne_true digit
  rw [bare?, integer?_toDigits]
  simp [word, fits]

/-! ## Words -/

theorem takeBare?_append (plain : ∀ c ∈ word, isBare c = true) (reads : bare? word = some value)
    (rest : List Char) :
    takeBare? (word ++ '\n' :: rest) = some (value, '\n' :: rest) := by
  have taken : (word ++ '\n' :: rest).takeWhile isBare = word := by
    rw [List.takeWhile_append_of_pos plain, List.takeWhile_cons_of_neg (by decide), List.append_nil]
  have length : bareLength (word ++ '\n' :: rest) = word.length := by
    simp [bareLength, taken]
  simp [takeBare?, length, reads]

theorem quoted?_eq_none {c : Char} (plain : c ≠ '"' ∧ c ≠ '\'') : quoted? (c :: text) = none := by
  rw [quoted?, quotedLine?]
  all_goals simp [plain]

theorem takeScalar?_number (fits : fitsWord n = true) :
    takeScalar? ((toString n).toList ++ '\n' :: rest) = some (.integer n, '\n' :: rest) := by
  rw [Nat.toString_eq_repr, Nat.toList_repr]
  have digits := isDigits_toDigits n
  have plain : ∀ c ∈ Nat.toDigits 10 n, isBare c = true := fun c member => by
    simp [isBare, Char.isAlphanum, digits.2.1 c member]
  have word := takeBare?_append plain (bare?_toDigits fits) rest
  obtain ⟨c, tail, shape, digit⟩ := digits.exists_cons
  have unquoted : c ≠ '"' ∧ c ≠ '\'' := by
    constructor <;> rintro rfl <;> exact absurd digit (by decide)
  rw [shape, List.cons_append] at word ⊢
  rw [takeScalar?, quoted?_eq_none unquoted, word]

theorem takeScalar?_text (content : String) :
    takeScalar? ((String.ofList (quoted content.toList)).toList ++ '\n' :: rest) =
      some (.text content, '\n' :: rest) := by
  rw [String.toList_ofList, takeScalar?, quoted?_quoted content.toList (by simp) (by simp)]
  simp

/-- The scalar is one that can be read: a number that is not too large, or any text. -/
def Scalar.Fits : Scalar → Prop
  | .text _ => True
  | .number n => fitsWord n = true

instance : DecidablePred Scalar.Fits
  | .text _ => .isTrue trivial
  | .number n => inferInstanceAs (Decidable (fitsWord n = true))

theorem takeScalar?_document (fits : scalar.Fits) :
    takeScalar? (scalar.document.toList ++ '\n' :: rest) = some (scalar.datum, '\n' :: rest) := by
  cases scalar with
  | text content => exact takeScalar?_text content
  | number n => exact takeScalar?_number fits

/-- A scalar starts with a quote or with the first character of a word. -/
theorem starts_of_takeScalar? (reads : takeScalar? text = some (value, rest)) :
    ∃ c tail, text = c :: tail ∧ (c = '"' ∨ c = '\'' ∨ isBare c = true) := by
  cases text with
  | nil => simp [takeScalar?, quoted?, quotedLine?, takeBare?, bareLength, bare?_nil] at reads
  | cons c tail =>
    refine ⟨c, tail, rfl, ?_⟩
    by_contra other
    simp only [not_or, Bool.not_eq_true] at other
    have length : bareLength (c :: tail) = 0 := by
      simp only [bareLength, List.takeWhile_cons, other.2.2]
      split <;> simp [isDate]
    simp [takeScalar?, quoted?_eq_none ⟨other.1, other.2.1⟩, takeBare?, length, bare?_nil] at reads

theorem takeValue?_of_takeScalar? (reads : takeScalar? text = some (value, rest)) (room : Nat) :
    ∃ taken, takeValue? room text = some taken ∧ taken.value = value ∧ taken.rest = rest := by
  obtain ⟨c, tail, rfl, starts⟩ := starts_of_takeScalar? reads
  rw [takeValue?]
  · split
    · next found =>
      rw [reads] at found
      cases found
      exact ⟨_, rfl, rfl, rfl⟩
    · next none =>
      rw [reads] at none
      contradiction
  · rintro _ same
    rw [(List.cons.inj same).1] at starts
    contradiction
  · rintro _ same
    rw [(List.cons.inj same).1] at starts
    contradiction

end Cadence.Toml
