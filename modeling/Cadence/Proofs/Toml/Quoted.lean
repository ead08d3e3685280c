import Cadence.Toml.Record
import Cadence.Toml.Quoted

/-!
# Strings, read back

Every text comes back from the string that is written for it (`quoted?_quoted`), in whichever of the
four forms that is.  A text may hold quotes, line ends and control characters in any order, and the
form decides which of them are escaped.

`WritesFirst` says in one place what basic strings write for a character: itself or an escape.  Over
several lines bare quotes stand in pairs at most, so the reader meets three of them at the end of
the string and not before; quotes right before the end are told from those that close it by their
number.
-/

namespace Cadence.Toml

variable {c quote : Char} {text body rest escape : List Char} {run quotes : Nat}
  {ended : List Char × List Char}

/-! ## Escapes -/

/-- The text stands for the character after a backslash.  It does not look like the end of a line,
which a backslash may precede as well. -/
structure IsEscape (escape : List Char) (c : Char) : Prop where
  taken : ∀ rest, takeEscape? (escape ++ rest) = some (c, rest)
  onLine : ∀ rest, startsLineEnd (skipBlank (escape ++ rest)) = false

theorem isEscape_letter (letter : Char) (known : letterEscape? letter = some c) :
    IsEscape [letter] c where
  taken rest := by
    rw [List.singleton_append, takeEscape?]
    · rw [known, Option.map_some]
    · rintro rfl
      contradiction
    · rintro rfl
      contradiction
  onLine rest := by
    unfold letterEscape? at known
    split at known <;> trivial

/-- The digits of a control character, as its escape has them. -/
def controlDigits (c : Char) : List Char :=
  let digits := (Nat.toDigits 16 c.toNat).map Char.toUpper
  List.replicate (4 - digits.length) '0' ++ digits

theorem controlDigits_spec (control : isControl c = true) :
    (controlDigits c).length = 4 ∧ codePoint? (controlDigits c) = some c := by
  have all : ∀ n < 128, isControl (Char.ofNat n) = true →
      (controlDigits (Char.ofNat n)).length = 4 ∧
        codePoint? (controlDigits (Char.ofNat n)) = some (Char.ofNat n) := by
    decide +kernel
  have low : c.toNat < 128 := by
    simp only [isControl, Bool.or_eq_true, Bool.and_eq_true, decide_eq_true_eq, beq_iff_eq]
      at control
    omega
  have found := all c.toNat low
  rw [Char.ofNat_toNat] at found
  exact found control

theorem isEscape_control (control : isControl c = true) : IsEscape ('u' :: controlDigits c) c where
  taken rest := by
    obtain ⟨length, value⟩ := controlDigits_spec control
    have enough : 4 ≤ (controlDigits c ++ rest).length := by simp [length]
    rw [List.cons_append, takeEscape?, takeCodePoint?, if_pos enough, ← length, List.take_left,
      List.drop_left, value, Option.map_some]
  onLine _ := rfl

/-- What is written for a character of a basic string, after so many bare quotes, and for the text
after it. -/
inductive WritesFirst (lines : Bool) (quotes : Nat) : Char → List Char → List Char → Prop where
  | quote {text : List Char} (several : lines = true) (few : quotes < 2) :
      WritesFirst lines quotes '"' text ('"' :: basicBody lines (quotes + 1) text)
  | lineEnd {text : List Char} (several : lines = true) :
      WritesFirst lines quotes '\n' text ('\n' :: basicBody lines 0 text)
  | plain {c : Char} {text : List Char} (notQuote : c ≠ '"') (notBackslash : c ≠ '\\')
      (visible : isControl c = false) :
      WritesFirst lines quotes c text (c :: basicBody lines 0 text)
  | escape {c : Char} {text escape : List Char} (isEscape : IsEscape escape c) :
      WritesFirst lines quotes c text ('\\' :: (escape ++ basicBody lines 0 text))

theorem writesFirst_escaped {lines : Bool} (notQuote : c ≠ '"') :
    WritesFirst lines quotes c text (escaped c ++ basicBody lines 0 text) := by
  unfold escaped
  split
  · exact .escape (isEscape_letter 'b' rfl)
  · exact .escape (isEscape_letter 't' rfl)
  · exact .escape (isEscape_letter 'f' rfl)
  · exact .escape (isEscape_letter 'r' rfl)
  · exact .escape (isEscape_letter '\\' rfl)
  · next notBackslash =>
    split
    · next control => exact .escape (isEscape_control control)
    · next visible => exact .plain notQuote notBackslash (Bool.eq_false_iff.mpr visible)

theorem writesFirst (lines : Bool) (quotes : Nat) (c : Char) (text : List Char) :
    WritesFirst lines quotes c text (basicBody lines quotes (c :: text)) := by
  by_cases quote : c = '"'
  · subst quote
    rw [basicBody]
    split
    · next bare =>
      simp only [Bool.and_eq_true, decide_eq_true_eq] at bare
      exact .quote bare.1 bare.2
    · exact .escape (isEscape_letter '"' rfl)
  by_cases lineEnd : c = '\n'
  · subst lineEnd
    rw [basicBody]
    split
    · next several => exact .lineEnd several
    · exact .escape (isEscape_letter 'n' rfl)
  rw [basicBody.eq_4 _ _ _ _ quote lineEnd]
  exact writesFirst_escaped quote

/-! ## One line -/

theorem basicBody?_escape (isEscape : IsEscape escape c) (rest : List Char) :
    basicBody? ('\\' :: (escape ++ rest)) = push c (basicBody? rest) := by
  rw [basicBody?]
  split
  · next none => simp [isEscape.taken] at none
  · next found =>
    rw [isEscape.taken] at found
    cases found
    rfl

theorem basicBody?_cons (notQuote : c ≠ '"') (notBackslash : c ≠ '\\')
    (visible : isControl c = false) (rest : List Char) :
    basicBody? (c :: rest) = push c (basicBody? rest) := by
  rw [basicBody?, visible, if_neg Bool.false_ne_true]
  · exact notQuote
  · exact notBackslash

theorem basicBody?_basicBody (text rest : List Char) :
    basicBody? (basicBody false 0 text ++ '"' :: rest) = some (text, rest) := by
  induction text with
  | nil => simp [basicBody, basicBody?]
  | cons c text ih =>
    have first := writesFirst false 0 c text
    generalize basicBody false 0 (c :: text) = body at first ⊢
    cases first with
    | quote several | lineEnd several => contradiction
    | plain notQuote notBackslash visible =>
      rw [List.cons_append, basicBody?_cons notQuote notBackslash visible, ih]
      rfl
    | escape isEscape =>
      rw [List.cons_append, List.append_assoc, basicBody?_escape isEscape, ih]
      rfl

theorem literalBody?_append (plain : ∀ c ∈ text, isControl c = false ∧ c ≠ '\'')
    (rest : List Char) : literalBody? (text ++ '\'' :: rest) = some (text, rest) := by
  induction text with
  | nil => rfl
  | cons c text ih =>
    obtain ⟨⟨visible, notQuote⟩, later⟩ := List.forall_mem_cons.mp plain
    rw [List.cons_append, literalBody?, visible, ih later]
    · rfl
    · exact notQuote

/-! ## Several lines -/

theorem longestRun_mono {less more : Nat} (le : less ≤ more) :
    longestRun quote less text ≤ longestRun quote more text := by
  induction text generalizing less more with
  | nil => exact le
  | cons c text ih =>
    rw [longestRun, longestRun]
    split
    · exact ih (Nat.succ_le_succ le)
    · omega

theorem longestRun_tail (quote c : Char) (text : List Char) :
    longestRun quote 0 text ≤ longestRun quote 0 (c :: text) := by
  rw [longestRun]
  split
  · exact longestRun_mono (Nat.zero_le 1)
  · exact Nat.le_max_right _ _

theorem length_takeWhile_le_longestRun (quote : Char) (run : Nat) (text : List Char) :
    (text.takeWhile (· == quote)).length + run ≤ longestRun quote run text := by
  induction text generalizing run with
  | nil => exact Nat.le_of_eq (Nat.zero_add run)
  | cons c text ih =>
    by_cases same : c = quote
    · have := ih (run + 1)
      simp [longestRun, same]
      omega
    · rw [longestRun, if_neg same, List.takeWhile_cons_of_neg (by simpa using same),
        List.length_nil, Nat.zero_add]
      exact Nat.le_max_left _ _

/-- Content that is quotes only stands before the closing ones and is told apart from them. -/
theorem closing?_eq_some (few : (body.takeWhile (· == quote)).length ≤ 2)
    (all : ∀ c ∈ body, c = quote) (stops : rest.head? ≠ some quote) :
    closing? quote (body ++ (List.replicate 3 quote ++ rest)) = some (body, rest) := by
  obtain ⟨count, rfl⟩ : ∃ count, body = List.replicate count quote :=
    ⟨_, List.eq_replicate_of_mem all⟩
  rw [List.takeWhile_replicate, if_pos BEq.rfl, List.length_replicate] at few
  have ended : rest.takeWhile (· == quote) = [] := by
    cases rest with
    | nil => rfl
    | cons c rest => exact List.takeWhile_cons_of_neg (by simpa using stops)
  have quotes : (List.replicate (count + 3) quote ++ rest).takeWhile (· == quote) =
      List.replicate (count + 3) quote := by
    rw [List.takeWhile_append_of_pos (by simp), ended, List.append_nil]
  have most : min (count + 3) 5 = count + 3 := by omega
  rw [← List.append_assoc, List.replicate_append_replicate, closing?, quotes, List.length_replicate,
    if_neg (by omega), most]
  simp

/-- Quotes in front of another character are too few to close the string. -/
theorem closing?_eq_none (few : (body.takeWhile (· == quote)).length ≤ 2)
    (differs : ¬ ∀ c ∈ body, c = quote) (other : List Char) :
    closing? quote (body ++ other) = none := by
  have within : (body.takeWhile (· == quote)).length ≠ body.length := by
    intro same
    have whole := (List.takeWhile_prefix (· == quote) (l := body)).eq_of_length same
    have all := List.all_takeWhile (p := (· == quote)) (l := body)
    rw [whole, List.all_eq_true] at all
    exact differs fun c member => eq_of_beq (all c member)
  rw [closing?, List.takeWhile_append, if_neg within, if_pos (Nat.lt_succ_of_le few)]

theorem exists_cons_of_closing? (closes : closing? quote text = some ended) :
    ∃ tail, text = quote :: tail := by
  cases text with
  | nil => simp [closing?] at closes
  | cons c tail =>
    by_cases same : c = quote
    · exact ⟨tail, by rw [same]⟩
    · simp [closing?, same] at closes

theorem linesBody?_escape (isEscape : IsEscape escape c) (rest : List Char) :
    linesBody? false ('\\' :: (escape ++ rest)) = push c (linesBody? false rest) := by
  rw [linesBody?, isEscape.onLine, if_neg Bool.false_ne_true]
  split
  · next none => simp [isEscape.taken] at none
  · next found =>
    rw [isEscape.taken] at found
    cases found
    rfl

theorem linesBody?_closing (closes : closing? '"' text = some ended) :
    linesBody? false text = some ended := by
  obtain ⟨tail, rfl⟩ := exists_cons_of_closing? closes
  rw [linesBody?, closes] <;> simp

theorem linesBody?_cons (goesOn : closing? '"' (c :: text) = none) (notBackslash : c ≠ '\\')
    (visible : isControl c = false ∨ c = '\n') :
    linesBody? false (c :: text) = push c (linesBody? false text) := by
  rw [linesBody?, goesOn]
  · rcases visible with visible | rfl <;> simp [*]
  · rintro rest rfl
    simp [isControl] at visible
  · exact notBackslash

/-- A string over several lines has bare quotes in pairs at most, those in front counted. -/
theorem takeWhile_basicBody (few : quotes ≤ 2) (text : List Char) :
    ((basicBody true quotes text).takeWhile (· == '"')).length + quotes ≤ 2 := by
  induction text generalizing quotes with
  | nil => simpa [basicBody] using few
  | cons c text ih =>
    have first := writesFirst true quotes c text
    generalize basicBody true quotes (c :: text) = body at first ⊢
    cases first with
    | quote _ bare =>
      have later : _ + (quotes + 1) ≤ 2 := ih bare
      rw [List.takeWhile_cons_of_pos (by simp), List.length_cons]
      omega
    | lineEnd | escape => simpa using few
    | plain notQuote => simpa [notQuote] using few

/-- Where only quotes are written they stand for themselves. -/
theorem eq_of_basicBody_all (all : ∀ c ∈ basicBody true quotes text, c = '"') :
    basicBody true quotes text = text := by
  induction text generalizing quotes with
  | nil => rfl
  | cons c text ih =>
    have first := writesFirst true quotes c text
    generalize basicBody true quotes (c :: text) = body at first all ⊢
    cases first with
    | quote => rw [ih (List.forall_mem_cons.mp all).2]
    | lineEnd | escape => exact absurd (all _ List.mem_cons_self) (by decide)
    | plain notQuote => exact absurd (all c List.mem_cons_self) notQuote

theorem linesBody?_basicBody (few : quotes ≤ 2) (text : List Char) (stops : rest.head? ≠ some '"') :
    linesBody? false (basicBody true quotes text ++ (List.replicate 3 '"' ++ rest)) =
      some (text, rest) := by
  induction text generalizing quotes with
  | nil => exact linesBody?_closing (closing?_eq_some (Nat.zero_le 2) (by simp [basicBody]) stops)
  | cons c text ih =>
    have run := takeWhile_basicBody few (c :: text)
    by_cases all : ∀ d ∈ basicBody true quotes (c :: text), d = '"'
    · -- The rest of the content is quotes, and the reader closes the string with these.
      have same := eq_of_basicBody_all all
      rw [same] at all run ⊢
      exact linesBody?_closing (closing?_eq_some (by omega) all stops)
    · have goesOn := closing?_eq_none (by omega) all (List.replicate 3 '"' ++ rest)
      have first := writesFirst true quotes c text
      generalize basicBody true quotes (c :: text) = body at first goesOn ⊢
      cases first with
      | quote _ bare =>
        rw [List.cons_append] at goesOn ⊢
        rw [linesBody?_cons goesOn (by decide) (.inl rfl), ih bare]
        rfl
      | lineEnd =>
        rw [List.cons_append] at goesOn ⊢
        rw [linesBody?_cons goesOn (by decide) (.inr rfl), ih (Nat.zero_le 2)]
        rfl
      | plain notQuote notBackslash visible =>
        rw [List.cons_append] at goesOn ⊢
        rw [linesBody?_cons goesOn notBackslash (.inl visible), ih (Nat.zero_le 2)]
        rfl
      | escape isEscape =>
        rw [List.cons_append, List.append_assoc, linesBody?_escape isEscape, ih (Nat.zero_le 2)]
        rfl

theorem literalLinesBody?_closing (closes : closing? '\'' text = some ended) :
    literalLinesBody? text = some ended := by
  obtain ⟨tail, rfl⟩ := exists_cons_of_closing? closes
  rw [literalLinesBody?, closes]
  simp

theorem literalLinesBody?_cons (goesOn : closing? '\'' (c :: text) = none)
    (visible : isControl c = false ∨ c = '\n') :
    literalLinesBody? (c :: text) = push c (literalLinesBody? text) := by
  rw [literalLinesBody?, goesOn]
  · rcases visible with visible | rfl <;> simp [*]
  · rintro rest rfl
    simp [isControl] at visible

theorem literalLinesBody?_append (plain : ∀ c ∈ text, isControl c = false ∨ c = '\n')
    (few : longestRun '\'' 0 text ≤ 2) (stops : rest.head? ≠ some '\'') :
    literalLinesBody? (text ++ (List.replicate 3 '\'' ++ rest)) = some (text, rest) := by
  induction text with
  | nil => exact literalLinesBody?_closing (closing?_eq_some (Nat.zero_le 2) (by simp) stops)
  | cons c text ih =>
    have run := length_takeWhile_le_longestRun '\'' 0 (c :: text)
    by_cases all : ∀ d ∈ c :: text, d = '\''
    · exact literalLinesBody?_closing (closing?_eq_some (by omega) all stops)
    · have goesOn := closing?_eq_none (by omega) all (List.replicate 3 '\'' ++ rest)
      obtain ⟨visible, later⟩ := List.forall_mem_cons.mp plain
      rw [List.cons_append] at goesOn ⊢
      rw [literalLinesBody?_cons goesOn visible,
        ih later (Nat.le_trans (longestRun_tail '\'' c text) few)]
      rfl

/-! ## The form that is written -/

theorem notMem_of_longestRun (none : longestRun quote 0 text = 0) : quote ∉ text := by
  induction text with
  | nil => exact List.not_mem_nil
  | cons c text ih =>
    have front := length_takeWhile_le_longestRun quote 0 (c :: text)
    have tail := longestRun_tail quote c text
    rw [List.mem_cons, not_or]
    refine ⟨?_, ih (by omega)⟩
    rintro rfl
    rw [List.takeWhile_cons_of_pos (by simp), List.length_cons] at front
    omega

theorem plain_of_literal (form : StringForm.plainest text = .literal) :
    text ≠ [] ∧ ∀ c ∈ text, isControl c = false ∧ c ≠ '\'' := by
  have nonempty : text ≠ [] := by
    rintro rfl
    contradiction
  dsimp only [StringForm.plainest] at form
  split at form
  · contradiction
  split at form
  · next plain =>
    simp only [Bool.and_eq_true, List.all_eq_true, Bool.or_eq_true, Bool.not_eq_true', beq_iff_eq,
      List.contains_eq_mem, decide_eq_false_iff_not] at plain
    obtain ⟨⟨visible, oneLine⟩, noQuote⟩ := plain
    refine ⟨nonempty, fun c member => ⟨?_, ?_⟩⟩
    · exact (visible c member).resolve_right fun lineEnd => oneLine (lineEnd ▸ member)
    · exact fun quote => notMem_of_longestRun noQuote (quote ▸ member)
  · repeat' split at form
    all_goals contradiction

theorem plain_of_literalLines (form : StringForm.plainest text = .literalLines) :
    (∀ c ∈ text, isControl c = false ∨ c = '\n') ∧ longestRun '\'' 0 text ≤ 2 := by
  dsimp only [StringForm.plainest] at form
  split at form
  · contradiction
  split at form
  · contradiction
  split at form
  · contradiction
  split at form
  · next plain =>
    simpa only [Bool.and_eq_true, List.all_eq_true, Bool.or_eq_true, Bool.not_eq_true', beq_iff_eq,
      decide_eq_true_eq] using plain
  · split at form <;> contradiction

/-! ## Every text -/

theorem skipLineEnd_of_visible (visible : ∀ c ∈ text.head?, isControl c = false) :
    skipLineEnd text = text := by
  unfold skipLineEnd
  split
  · simp [isControl] at visible
  · simp [isControl] at visible
  · rfl

/-- The line end that is written in front of a string with lines is left out again, and there is
none to leave out of a string without. -/
theorem skipLineEnd_start (visible : '\n' ∉ text → ∀ c ∈ body.head?, isControl c = false) :
    skipLineEnd ((if text.contains '\n' then ['\n'] else []) ++ body) = body := by
  split
  · rfl
  · next oneLine => exact skipLineEnd_of_visible (visible (by simpa using oneLine))

theorem head?_basicBody (lines : Bool) (oneLine : '\n' ∉ text) :
    ∀ c ∈ (basicBody lines 0 text).head?, isControl c = false := by
  cases text with
  | nil => simp [basicBody]
  | cons c text =>
    have first := writesFirst lines 0 c text
    generalize basicBody lines 0 (c :: text) = body at first ⊢
    cases first with
    | quote | escape => simp [isControl]
    | lineEnd => simp at oneLine
    | plain _ _ visible => simpa using visible

theorem quoted?_basic (noDouble : rest.head? ≠ some '"') :
    quoted? ('"' :: (basicBody false 0 text ++ '"' :: rest)) = some (text, rest) := by
  have read := basicBody?_basicBody text rest
  rw [quoted?.eq_3 _ _ (by simp)]
  · exact read
  · -- Three quotes in a row would open a string over several lines.
    rintro more three
    cases text with
    | nil =>
      simp only [basicBody, List.nil_append, List.cons.injEq, true_and] at three
      simp [three] at noDouble
    | cons c text =>
      have first := writesFirst false 0 c text
      generalize basicBody false 0 (c :: text) = body at first three
      cases first with
      | quote several | lineEnd several => contradiction
      | plain notQuote => simp [notQuote] at three
      | escape => simp at three

theorem quoted?_literal (nonempty : text ≠ [])
    (plain : ∀ c ∈ text, isControl c = false ∧ c ≠ '\'') :
    quoted? ('\'' :: (text ++ '\'' :: rest)) = some (text, rest) := by
  have read := literalBody?_append plain rest
  rw [quoted?.eq_3 _ (by simp)]
  · exact read
  · rintro more three
    obtain ⟨c, tail, rfl⟩ := List.exists_cons_of_ne_nil nonempty
    simp [(plain c List.mem_cons_self).2] at three

theorem quoted?_quoted (text : List Char) (noDouble : rest.head? ≠ some '"')
    (noSingle : rest.head? ≠ some '\'') : quoted? (quoted text ++ rest) = some (text, rest) := by
  unfold quoted
  cases form : StringForm.plainest text with
  | basic => simpa [StringForm.delimiter, StringForm.hasLines] using quoted?_basic noDouble
  | literal =>
    obtain ⟨nonempty, plain⟩ := plain_of_literal form
    simpa [StringForm.delimiter, StringForm.hasLines] using quoted?_literal nonempty plain
  | basicLines =>
    have read := linesBody?_basicBody (Nat.zero_le 2) text noDouble
    have visible (oneLine : '\n' ∉ text) : ∀ c ∈
        (basicBody true 0 text ++ (List.replicate 3 '"' ++ rest)).head?, isControl c = false := by
      have first := head?_basicBody true oneLine
      cases body : basicBody true 0 text with
      | nil => simp [isControl]
      | cons c body => simpa [body] using first
    rw [← skipLineEnd_start visible] at read
    simpa [StringForm.delimiter, StringForm.hasLines, quoted?] using read
  | literalLines =>
    obtain ⟨plain, few⟩ := plain_of_literalLines form
    have read := literalLinesBody?_append plain few noSingle
    have visible (oneLine : '\n' ∉ text) : ∀ c ∈
        (text ++ (List.replicate 3 '\'' ++ rest)).head?, isControl c = false := by
      cases text with
      | nil => simp [isControl]
      | cons c text =>
        have first := (plain c List.mem_cons_self).resolve_right fun lineEnd =>
          oneLine (lineEnd ▸ List.mem_cons_self)
        simpa using first
    rw [← skipLineEnd_start visible] at read
    simpa [StringForm.delimiter, StringForm.hasLines, quoted?] using read

end Cadence.Toml
