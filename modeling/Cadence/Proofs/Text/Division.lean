import Cadence.Text.Blank
import Cadence.Text.Separator
import Mathlib.Data.List.Forall2

/-!
# Trimming and cutting texts

What trimming and cutting do to a text, said without the functions that do them: a trimmed text is
the one between blanks that has none at its own ends, and the pieces of a text are the ones without
separators that give it back when they are joined.

* `trim_eq_iff` and `splitOn_eq_iff` compare the functions with that.
* `divides_iff` does so for a text that is cut at every separator and each piece trimmed.
* `divides_intercalate`: parts without blanks and separators are the ones of the text they join to.
* `find?_word_eq_some_iff`: what is looked for by its word is found by that word and no other.
* `Padded.trim_eq`, `Padded.map_trim_splitOn` and `toLower_trim`: what trimming leaves does not
  depend on the blanks around a text, nor do the trimmed pieces of the text, and trimming commutes
  with the small forms of letters.  `Spaced.map_trim_splitOn` is the same for blanks around one
  separator.
-/

namespace Cadence.Text

variable {text core before after : List Char}

/-! ## Blanks -/

/-- The text is `core` between blanks, and `core` neither starts nor ends with one. -/
structure Trims (text core : List Char) : Prop where
  around : ∃ before after, text = before ++ core ++ after ∧ (∀ c ∈ before, isBlank c = true) ∧
    ∀ c ∈ after, isBlank c = true
  starts : ∀ c ∈ core.head?, isBlank c = false
  ends : ∀ c ∈ core.getLast?, isBlank c = false

theorem trimStart_append (blank : ∀ c ∈ before, isBlank c = true) :
    trimStart (before ++ text) = trimStart text :=
  List.dropWhile_append_of_pos blank

theorem trimStart_eq_self (starts : ∀ c ∈ text.head?, isBlank c = false) :
    trimStart text = text := by
  cases text with
  | nil => rfl
  | cons c text => exact List.dropWhile_cons_of_neg (by simp [starts c rfl])

theorem trimEnd_append (blank : ∀ c ∈ after, isBlank c = true) :
    trimEnd (text ++ after) = trimEnd text := by
  -- Read backwards, the blanks at the end are the ones that it starts with.
  rw [trimEnd, List.reverse_append, trimStart_append, ← trimEnd]
  exact fun c member => blank c (List.mem_reverse.mp member)

theorem trimEnd_eq_self (ends : ∀ c ∈ text.getLast?, isBlank c = false) : trimEnd text = text := by
  rw [trimEnd, trimStart_eq_self, List.reverse_reverse]
  rwa [List.head?_reverse]

theorem exists_eq_append_trimStart (text : List Char) :
    ∃ before, text = before ++ trimStart text ∧ ∀ c ∈ before, isBlank c = true :=
  ⟨text.takeWhile isBlank, List.takeWhile_append_dropWhile.symm,
    List.all_eq_true.mp List.all_takeWhile⟩

theorem head?_trimStart {c : Char} (first : c ∈ (trimStart text).head?) : isBlank c = false := by
  have found := List.head?_dropWhile_not isBlank text
  rw [← trimStart, Option.mem_def.mp first] at found
  exact found

theorem trim_eq_of_trims (trims : Trims text core) : trim text = core := by
  obtain ⟨⟨before, after, rfl, blankBefore, blankAfter⟩, starts, ends⟩ := trims
  rw [trim, List.append_assoc, trimStart_append blankBefore]
  cases core with
  | nil =>
    -- Nothing but blanks: the first cut takes them all.
    have empty : trimStart after = [] := by
      rw [← List.append_nil after, trimStart_append blankAfter]
      rfl
    rw [List.nil_append, empty]
    rfl
  | cons c core =>
    rw [trimStart_eq_self (by simpa using starts c rfl), trimEnd_append blankAfter,
      trimEnd_eq_self ends]

theorem trims_trim (text : List Char) : Trims text (trim text) := by
  obtain ⟨before, start, blankBefore⟩ := exists_eq_append_trimStart text
  obtain ⟨after, stop, blankAfter⟩ := exists_eq_append_trimStart (trimStart text).reverse
  -- Between the two runs of blanks stands the trimmed text.
  have middle : trimStart text = trim text ++ after.reverse := by
    rw [trim, trimEnd, ← List.reverse_append, ← stop, List.reverse_reverse]
  constructor
  · refine ⟨before, after.reverse, ?_, blankBefore, ?_⟩
    · rw [List.append_assoc, ← middle]
      exact start
    · exact fun c member => blankAfter c (List.mem_reverse.mp member)
  · intro c first
    apply @head?_trimStart text
    rw [middle, List.head?_append, Option.mem_def.mp first]
    rfl
  · intro c last
    rw [trim, trimEnd, List.getLast?_reverse] at last
    exact head?_trimStart last

theorem trim_eq_iff : trim text = core ↔ Trims text core := by
  constructor
  · rintro rfl
    exact trims_trim text
  · exact trim_eq_of_trims

theorem Trims.unique {other : List Char} (first : Trims text core) (second : Trims text other) :
    core = other :=
  (trim_eq_of_trims first).symm.trans (trim_eq_of_trims second)

theorem trim_eq_self (plain : ∀ c ∈ text, isBlank c = false) : trim text = text := by
  apply trim_eq_of_trims
  refine ⟨⟨[], [], by simp, by simp, by simp⟩, ?_, ?_⟩
  · exact fun c first => plain c (List.mem_of_mem_head? first)
  · exact fun c last => plain c (List.mem_of_mem_getLast? last)

/-- The text is `core` between blanks, and `core` may have more of them at its own ends. -/
def Padded (text core : List Char) : Prop :=
  ∃ before after, text = before ++ core ++ after ∧ (∀ c ∈ before, isBlank c = true) ∧
    ∀ c ∈ after, isBlank c = true

/-- Blanks around a text do not change what is left when it is trimmed. -/
theorem Padded.trim_eq (padded : Padded text core) : trim text = trim core := by
  obtain ⟨before, after, rfl, blankBefore, blankAfter⟩ := padded
  obtain ⟨⟨left, right, split, blankLeft, blankRight⟩, starts, ends⟩ := trims_trim core
  apply trim_eq_of_trims
  refine ⟨⟨before ++ left, right ++ after, ?_, ?_, ?_⟩, starts, ends⟩
  · conv => lhs; rw [split]
    simp only [List.append_assoc]
  · exact List.forall_mem_append.mpr ⟨blankBefore, blankLeft⟩
  · exact List.forall_mem_append.mpr ⟨blankRight, blankAfter⟩

theorem padded_append_left (blank : ∀ c ∈ before, isBlank c = true) :
    Padded (before ++ text) text :=
  ⟨before, [], by simp, blank, nofun⟩

theorem padded_append_right (blank : ∀ c ∈ after, isBlank c = true) : Padded (text ++ after) text :=
  ⟨[], after, by simp, nofun, blank⟩

theorem trim_append_left (blank : ∀ c ∈ before, isBlank c = true) :
    trim (before ++ text) = trim text :=
  (padded_append_left blank).trim_eq

theorem trim_append_right (blank : ∀ c ∈ after, isBlank c = true) :
    trim (text ++ after) = trim text :=
  (padded_append_right blank).trim_eq

theorem padded_trim (text : List Char) : Padded text (trim text) := (trims_trim text).around

theorem Padded.not_mem {c : Char} (padded : Padded text core) (absent : c ∉ text) : c ∉ core := by
  obtain ⟨before, after, rfl, -, -⟩ := padded
  exact fun member => absent (by simp [member])

theorem padded_trimStart (text : List Char) : Padded text (trimStart text) := by
  obtain ⟨before, split, blank⟩ := exists_eq_append_trimStart text
  exact ⟨before, [], by rw [List.append_nil, ← split], blank, nofun⟩

theorem padded_trimEnd (text : List Char) : Padded text (trimEnd text) := by
  obtain ⟨after, split, blank⟩ := exists_eq_append_trimStart text.reverse
  refine ⟨[], after.reverse, ?_, nofun, fun c member => blank c (List.mem_reverse.mp member)⟩
  rw [List.nil_append, trimEnd, ← List.reverse_append, ← split, List.reverse_reverse]

/-- Trimming at the start ends at a character that is no blank. -/
theorem trimStart_append_cons {c : Char} (solid : isBlank c = false) :
    trimStart (before ++ c :: after) = trimStart before ++ c :: after := by
  have stop : trimStart (c :: after) = c :: after :=
    List.dropWhile_cons_of_neg (Bool.not_eq_true _ ▸ solid)
  rw [trimStart, List.dropWhile_append]
  split
  · next empty => rw [trimStart, List.isEmpty_iff.mp empty, List.nil_append, ← trimStart, stop]
  · rfl

theorem trim_append_cons {c : Char} (solid : isBlank c = false) :
    trim (before ++ c :: after) = trimStart before ++ c :: trimEnd after := by
  rw [trim, trimStart_append_cons solid, trimEnd, List.reverse_append, List.reverse_cons,
    List.append_assoc, List.singleton_append, trimStart_append_cons solid, trimEnd]
  simp

/-- The visible ASCII characters are no blanks. -/
theorem isBlank_of_visible {c : Char} (low : 33 ≤ c.toNat) (high : c.toNat ≤ 126) :
    isBlank c = false := by
  simp only [isBlank, blankRanges, List.any_cons, List.any_nil, Bool.or_false, Bool.or_eq_false_iff,
    Bool.and_eq_false_iff, decide_eq_false_iff_not]
  omega

theorem isBlank_of_isDigit {c : Char} (digit : c.isDigit = true) : isBlank c = false := by
  simp only [Char.isDigit, Bool.and_eq_true, decide_eq_true_eq, UInt32.le_iff_toNat_le] at digit
  have low : 48 ≤ c.toNat := digit.1
  have high : c.toNat ≤ 57 := digit.2
  exact isBlank_of_visible (by omega) (by omega)

/-! ## Separators -/

variable {separator : Char} {pieces : List (List Char)} {left right : List Char}

theorem not_mem_of_mem_splitOn {piece : List Char} (member : piece ∈ text.splitOn separator) :
    separator ∉ piece := by
  induction text generalizing piece with
  | nil =>
    rw [List.splitOn_nil, List.mem_singleton] at member
    simp [member]
  | cons c text ih =>
    rw [List.splitOn_cons_eq_if_modifyHead] at member
    split at member
    · rcases List.mem_cons.mp member with rfl | later
      · exact List.not_mem_nil
      · exact ih later
    · next different =>
      -- The first piece of the rest grows by a character that is no separator.
      obtain ⟨first, more, pieces⟩ :=
        List.exists_cons_of_ne_nil (List.splitOn_ne_nil separator text)
      rw [pieces, List.modifyHead_cons] at member
      rw [pieces] at ih
      rcases List.mem_cons.mp member with rfl | later
      · rw [List.mem_cons, not_or]
        refine ⟨?_, ih List.mem_cons_self⟩
        rintro rfl
        simp at different
      · exact ih (List.mem_cons_of_mem _ later)

/-- The pieces of a text are the texts without a separator that give it when they are joined. -/
theorem splitOn_eq_iff :
    text.splitOn separator = pieces ↔
      pieces ≠ [] ∧ (∀ piece ∈ pieces, separator ∉ piece) ∧
        [separator].intercalate pieces = text := by
  constructor
  · rintro rfl
    exact ⟨List.splitOn_ne_nil _ _, fun piece => not_mem_of_mem_splitOn,
      List.intercalate_splitOn separator⟩
  · rintro ⟨nonempty, clean, rfl⟩
    exact List.splitOn_intercalate separator clean nonempty

/-- The text divides at its separators into the given parts, each of them trimmed. -/
def Divides (separator : Char) (text : List Char) (parts : List (List Char)) : Prop :=
  ∃ pieces, pieces ≠ [] ∧ (∀ piece ∈ pieces, separator ∉ piece) ∧
    [separator].intercalate pieces = text ∧ List.Forall₂ Trims pieces parts

theorem divides_iff {parts : List (List Char)} :
    Divides separator text parts ↔ (text.splitOn separator).map trim = parts := by
  have trimmed : ∀ {pieces}, List.Forall₂ Trims pieces parts ↔ pieces.map trim = parts := by
    intro pieces
    rw [← List.forall₂_eq_eq_eq, List.forall₂_map_left_iff]
    simp only [trim_eq_iff]
  constructor
  · rintro ⟨pieces, nonempty, clean, joined, trims⟩
    rw [splitOn_eq_iff.mpr ⟨nonempty, clean, joined⟩]
    exact trimmed.mp trims
  · intro parts
    obtain ⟨nonempty, clean, joined⟩ := splitOn_eq_iff.mp (rfl : text.splitOn separator = _)
    exact ⟨_, nonempty, clean, joined, trimmed.mpr parts⟩

theorem eq_or_mem_of_mem_intercalate {c : Char} (member : c ∈ [separator].intercalate pieces) :
    c = separator ∨ ∃ piece ∈ pieces, c ∈ piece := by
  induction pieces with
  | nil => simp at member
  | cons piece pieces ih =>
    cases pieces with
    | nil => exact .inr ⟨piece, List.mem_cons_self, by simpa using member⟩
    | cons next pieces =>
      rw [List.intercalate_cons_cons, List.append_assoc, List.mem_append, List.mem_append,
        List.mem_singleton] at member
      rcases member with member | same | member
      · exact .inr ⟨piece, List.mem_cons_self, member⟩
      · exact .inl same
      · rcases ih member with same | ⟨other, later, member⟩
        · exact .inl same
        · exact .inr ⟨other, List.mem_cons_of_mem _ later, member⟩

theorem mem_intercalate_of_mem {c : Char} {piece : List Char} (listed : piece ∈ pieces)
    (member : c ∈ piece) : c ∈ [separator].intercalate pieces := by
  induction pieces with
  | nil => simp at listed
  | cons first pieces ih =>
    cases pieces with
    | nil => simp_all
    | cons next pieces =>
      rw [List.intercalate_cons_cons, List.append_assoc, List.mem_append, List.mem_append]
      rcases List.mem_cons.mp listed with rfl | later
      · exact .inl member
      · exact .inr (.inr (ih later))

/-- Joining puts nothing into a text but the separators. -/
theorem mem_intercalate_iff {c : Char} (different : c ≠ separator) :
    c ∈ [separator].intercalate pieces ↔ ∃ piece ∈ pieces, c ∈ piece := by
  constructor
  · exact fun member => (eq_or_mem_of_mem_intercalate member).resolve_left different
  · rintro ⟨piece, listed, member⟩
    exact mem_intercalate_of_mem listed member

/-- Either all items pass a test, or one of them is the first that does not. -/
theorem all_or_first_not {α : Type} (passes : α → Prop) (items : List α) :
    (∀ item ∈ items, passes item) ∨ ∃ before item after, items = before ++ item :: after ∧
      (∀ item ∈ before, passes item) ∧ ¬ passes item := by
  classical
  cases found : items.find? fun item => ¬ passes item with
  | none => exact .inl (by simpa using found)
  | some item =>
    obtain ⟨faulty, before, after, rfl, valid⟩ := List.find?_eq_some_iff_append.mp found
    exact .inr ⟨before, item, after, rfl, by simpa using valid, by simpa using faulty⟩

theorem divides_intercalate {parts : List (List Char)} (nonempty : parts ≠ [])
    (plain : ∀ part ∈ parts, ∀ c ∈ part, isBlank c = false)
    (clean : ∀ part ∈ parts, separator ∉ part) :
    Divides separator ([separator].intercalate parts) parts := by
  rw [divides_iff, List.splitOn_intercalate separator clean nonempty]
  calc
    parts.map trim = parts.map id :=
      List.map_congr_left fun part member => trim_eq_self (plain part member)
    _ = parts := List.map_id parts

theorem intercalate_append_cons (before first : List Char) (pieces : List (List Char)) :
    [separator].intercalate ((before ++ first) :: pieces) =
      before ++ [separator].intercalate (first :: pieces) := by
  cases pieces <;> simp [List.intercalate_cons_cons]

theorem intercalate_concat_append (pieces : List (List Char)) (last after : List Char) :
    [separator].intercalate (pieces ++ [last ++ after]) =
      [separator].intercalate (pieces ++ [last]) ++ after := by
  induction pieces with
  | nil => simp
  | cons piece pieces ih =>
    cases pieces with
    | nil => simp [List.intercalate_cons_cons]
    | cons next pieces =>
      simp only [List.cons_append, List.intercalate_cons_cons] at ih ⊢
      rw [ih, List.append_assoc _ _ after]

theorem not_mem_of_blank (solid : isBlank separator = false)
    (blank : ∀ c ∈ text, isBlank c = true) : separator ∉ text := by
  intro member
  rw [blank separator member] at solid
  contradiction

/-- Text in front of the first separator goes with the first piece. -/
theorem splitOn_append_of_not_mem (clean : separator ∉ before) {first : List Char}
    (split : text.splitOn separator = first :: pieces) :
    (before ++ text).splitOn separator = (before ++ first) :: pieces := by
  obtain ⟨-, cleanPieces, joined⟩ := splitOn_eq_iff.mp split
  rw [List.forall_mem_cons] at cleanPieces
  apply splitOn_eq_iff.mpr
  refine ⟨List.cons_ne_nil _ _, ?_, ?_⟩
  · rw [List.forall_mem_cons]
    exact ⟨by simp [clean, cleanPieces.1], cleanPieces.2⟩
  · rw [intercalate_append_cons, joined]

/-- Text behind the last separator goes with the last piece. -/
theorem splitOn_concat_of_not_mem (clean : separator ∉ after) {last : List Char}
    (split : text.splitOn separator = pieces ++ [last]) :
    (text ++ after).splitOn separator = pieces ++ [last ++ after] := by
  obtain ⟨-, cleanPieces, joined⟩ := splitOn_eq_iff.mp split
  rw [List.forall_mem_append, List.forall_mem_singleton] at cleanPieces
  apply splitOn_eq_iff.mpr
  refine ⟨by simp, ?_, ?_⟩
  · rw [List.forall_mem_append, List.forall_mem_singleton]
    exact ⟨cleanPieces.1, by simp [clean, cleanPieces.2]⟩
  · rw [intercalate_concat_append, joined]

/-- Blanks around a text go with its first and its last piece, where trimming takes them off. -/
theorem Padded.map_trim_splitOn (padded : Padded text core) (solid : isBlank separator = false) :
    (text.splitOn separator).map trim = (core.splitOn separator).map trim := by
  obtain ⟨before, after, rfl, blankBefore, blankAfter⟩ := padded
  have front : ∀ text, ((before ++ text).splitOn separator).map trim =
      (text.splitOn separator).map trim := by
    intro text
    obtain ⟨first, pieces, split⟩ :=
      List.exists_cons_of_ne_nil (List.splitOn_ne_nil separator text)
    rw [splitOn_append_of_not_mem (not_mem_of_blank solid blankBefore) split, split,
      List.map_cons, List.map_cons, trim_append_left blankBefore]
  have back : ∀ text, ((text ++ after).splitOn separator).map trim =
      (text.splitOn separator).map trim := by
    intro text
    obtain ⟨pieces, last, split⟩ :=
      (List.splitOn separator text).eq_nil_or_concat.resolve_left (List.splitOn_ne_nil _ _)
    rw [List.concat_eq_append] at split
    rw [splitOn_concat_of_not_mem (not_mem_of_blank solid blankAfter) split, split]
    simp [trim_append_right blankAfter]
  rw [back, front]

/-- The text is `left` and `right` with the separator between them and blanks around it. -/
inductive Spaced (separator : Char) (left right : List Char) : List Char → Prop where
  | intro {before after : List Char} (blankBefore : ∀ c ∈ before, isBlank c = true)
      (blankAfter : ∀ c ∈ after, isBlank c = true) :
      Spaced separator left right (left ++ before ++ separator :: (after ++ right))

/-- Blanks around one separator are trimmed off the pieces on both sides of it. -/
theorem Spaced.map_trim_splitOn (spaced : Spaced separator left right text)
    (solid : isBlank separator = false) :
    (text.splitOn separator).map trim =
      ((left ++ separator :: right).splitOn separator).map trim := by
  obtain ⟨blankBefore, blankAfter⟩ := spaced
  rw [List.splitOn_append_cons_self, List.splitOn_append_cons_self, List.map_append,
    List.map_append, (padded_append_right blankBefore).map_trim_splitOn solid,
    (padded_append_left blankAfter).map_trim_splitOn solid]

theorem splitOn_of_not_mem (clean : separator ∉ text) : text.splitOn separator = [text] :=
  splitOn_eq_iff.mpr ⟨List.cons_ne_nil _ _, by simpa using clean, by simp⟩

theorem splitOn_append_cons (clean : separator ∉ before) :
    (before ++ separator :: after).splitOn separator = before :: after.splitOn separator := by
  rw [List.splitOn_append_cons_self, splitOn_of_not_mem clean, List.singleton_append]

theorem passes_of_not_mem (clean : separator ∉ text) :
    ∀ c ∈ text, decide (c ≠ separator) = true := by
  intro c member
  rw [decide_eq_true_eq]
  rintro rfl
  exact clean member

theorem cutFirst_append (clean : separator ∉ before) :
    cutFirst separator (before ++ separator :: after) = some (before, after) := by
  have keep := passes_of_not_mem clean
  rw [cutFirst, List.dropWhile_append_of_pos keep, List.takeWhile_append_of_pos keep]
  simp

theorem cutFirst_eq_none (clean : separator ∉ text) : cutFirst separator text = none := by
  have keep := passes_of_not_mem clean
  rw [cutFirst, ← List.append_nil text, List.dropWhile_append_of_pos keep]
  rfl

theorem cutFirst_eq_some_iff :
    cutFirst separator text = some (before, after) ↔
      separator ∉ before ∧ text = before ++ separator :: after := by
  constructor
  · intro found
    by_cases member : separator ∈ text
    · obtain ⟨front, rest, rfl, clean⟩ := List.eq_append_cons_of_mem member
      rw [cutFirst_append clean] at found
      obtain ⟨rfl, rfl⟩ := Prod.mk.inj (Option.some.inj found)
      exact ⟨clean, rfl⟩
    · rw [cutFirst_eq_none member] at found
      contradiction
  · rintro ⟨clean, rfl⟩
    exact cutFirst_append clean

/-! ## Words -/

theorem find?_word_eq_some_iff {α β : Type} [BEq β] [LawfulBEq β] {all : List α} {wordOf : α → β}
    (known : ∀ a, all.find? (wordOf · == wordOf a) = some a) {word : β} {a : α} :
    all.find? (wordOf · == word) = some a ↔ word = wordOf a := by
  constructor
  · intro found
    have same := List.find?_some found
    exact (eq_of_beq same).symm
  · rintro rfl
    exact known a

/-! ## Letter case -/

theorem toNat_toLower {c : Char} (capital : c.val ≥ 'A'.val ∧ c.val ≤ 'Z'.val) :
    c.toLower.toNat = c.toNat + 32 := by
  have high : c.toNat ≤ 90 := capital.2
  have lowered : c.toLower.val = c.val + ('a'.val - 'A'.val) := congrArg Char.val (dif_pos capital)
  have sum : (c.val + ('a'.val - 'A'.val)).toNat = (c.toNat + 32) % 4294967296 :=
    UInt32.toNat_add _ _
  rw [Char.toNat, lowered, sum]
  exact Nat.mod_eq_of_lt (by omega)

theorem toLower_of_not_capital {c : Char} (small : ¬ (c.val ≥ 'A'.val ∧ c.val ≤ 'Z'.val)) :
    c.toLower = c :=
  dif_neg small

/-- A letter has one capital in either case. -/
theorem toUpper_toLower_char (c : Char) : c.toLower.toUpper = c.toUpper := by
  by_cases capital : c.val ≥ 'A'.val ∧ c.val ≤ 'Z'.val
  · have low : 65 ≤ c.val.toNat := capital.1
    have high : c.val.toNat ≤ 90 := capital.2
    have lowered : c.toLower.val.toNat = c.val.toNat + 32 := toNat_toLower capital
    have small : c.toLower.val ≥ 'a'.val ∧ c.toLower.val ≤ 'z'.val :=
      ⟨show 97 ≤ c.toLower.val.toNat by omega, show c.toLower.val.toNat ≤ 122 by omega⟩
    have kept : c.toUpper = c := dif_neg fun small => by
      have : 97 ≤ c.val.toNat := small.1
      omega
    -- The capitals stand before the small letters, so their distance wraps.
    have distance : ('A'.val - 'a'.val).toNat = 4294967296 - 32 := by decide
    rw [kept, ← Char.toNat_inj]
    delta Char.toUpper
    rw [dif_pos small]
    show (c.toLower.val + ('A'.val - 'a'.val)).toNat = c.val.toNat
    rw [UInt32.toNat_add, distance]
    omega
  · rw [toLower_of_not_capital capital]

theorem toUpper_toLower (text : List Char) : toUpper (toLower text) = toUpper text := by
  rw [toUpper, toUpper, toLower, List.map_map]
  exact List.map_congr_left fun c _ => toUpper_toLower_char c

/-- A letter is no blank in either case, and no other character has a small form. -/
theorem isBlank_toLower (c : Char) : isBlank c.toLower = isBlank c := by
  by_cases capital : c.val ≥ 'A'.val ∧ c.val ≤ 'Z'.val
  · have low : 65 ≤ c.toNat := capital.1
    have high : c.toNat ≤ 90 := capital.2
    have lowered := toNat_toLower capital
    rw [isBlank_of_visible (by omega) (by omega), isBlank_of_visible (by omega) (by omega)]
  · rw [toLower_of_not_capital capital]

/-- A character below the letters stands in a text in either case. -/
theorem mem_toLower_iff {low : Char} (below : low.toNat < 65) :
    low ∈ toLower text ↔ low ∈ text := by
  have same : ∀ c : Char, c.toLower = low ↔ c = low := by
    intro c
    by_cases capital : c.val ≥ 'A'.val ∧ c.val ≤ 'Z'.val
    · have high : 65 ≤ c.toNat := capital.1
      have lowered := toNat_toLower capital
      constructor
      · rintro rfl
        omega
      · rintro rfl
        omega
    · rw [toLower_of_not_capital capital]
  simp only [toLower, List.mem_map, same, exists_eq_right]

theorem toLower_trimStart (text : List Char) :
    toLower (trimStart text) = trimStart (toLower text) := by
  have same : isBlank ∘ Char.toLower = isBlank := funext isBlank_toLower
  rw [toLower, toLower, trimStart, trimStart, List.dropWhile_map, same]

theorem toLower_trimEnd (text : List Char) : toLower (trimEnd text) = trimEnd (toLower text) := by
  have reversed : ∀ text : List Char, toLower text.reverse = (toLower text).reverse :=
    fun _ => List.map_reverse
  rw [trimEnd, trimEnd, reversed, toLower_trimStart, reversed]

theorem toLower_trim (text : List Char) : toLower (trim text) = trim (toLower text) := by
  rw [trim, trim, toLower_trimEnd, toLower_trimStart]

end Cadence.Text
