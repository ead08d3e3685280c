import Cadence.Proofs.Pattern.Agreement

/-!
# Normal forms of texts

Normalizing a text writes the canonical pattern of the rule that it is read as.  The lenient reader
gives legible rules only, whatever text it reads (`isLegible_parse`), and a legible rule is
determined by its pattern (`pattern_inj_of_isLegible`).  So a normal form is read as the rule that
it was written for, and two texts share it exactly if they are read as the same rule.

Under the strict policy a normal form is accepted again, since the strict reader gives sound rules.
-/

namespace Cadence

namespace Pattern

/-! ## What the lenient reader gives -/

theorem value_readDayOfMonth_bounds (text : List Char) :
    1 ≤ (readDayOfMonth text).value ∧ (readDayOfMonth text).value ≤ Rule.longestMonth := by
  by_cases valid : ∃ day, IsDayOfMonth text day
  · obtain ⟨day, isDay⟩ := valid
    rw [readDayOfMonth_eq_pure isDay]
    exact isDay.2
  · rw [readDayOfMonth_eq_standIn (not_exists.mp valid)]
    show 1 ≤ 1 ∧ 1 ≤ Rule.longestMonth
    decide

theorem value_readDayList_ne_empty (list : Option (List Char)) :
    (readDayList list).value ≠ ∅ := by
  match list with
  | none | some [] => exact WeekdaySet.single_ne_empty
  | some (c :: text) => exact WeekdaySet.orSingle_ne_empty

theorem isLegible_readArguments (keyword : Keyword) (arguments : List (List Char)) :
    (readArguments keyword arguments).value.IsLegible := by
  cases keyword with
  | daily | weekdays => trivial
  | weekly => exact value_readDayList_ne_empty arguments[1]?
  | monthly =>
    match arguments with
    | [] => exact ⟨Nat.le_refl 1, by decide⟩
    | [day] => exact value_readDayOfMonth_bounds day
    | _ :: _ :: _ => trivial
  | yearly =>
    cases arguments with
    | nil => exact ⟨Nat.le_refl 1, by decide⟩
    | cons date more => exact value_readDayOfMonth_bounds _

theorem isLegible_read (text : List Char) : (read text).value.IsLegible := by
  unfold read
  split
  · trivial
  · split
    · trivial
    · split
      · exact isLegible_readArguments _ _
      · trivial

end Pattern

namespace Rule

variable {rule other : Rule} {text : String}

theorem isLegible_parse (text : String) : (parse text).IsLegible :=
  Pattern.isLegible_read text.toList

theorem parse_pattern_of_isLegible (legible : rule.IsLegible) : parse rule.pattern = rule := by
  rw [parse_pattern, restored_of_isLegible legible]

theorem pattern_inj_of_isLegible (legible : rule.IsLegible) (otherLegible : other.IsLegible) :
    rule.pattern = other.pattern ↔ rule = other := by
  constructor
  · intro same
    rw [← parse_pattern_of_isLegible legible, same, parse_pattern_of_isLegible otherLegible]
  · exact congrArg pattern

theorem parse_normalize (text : String) : parse (normalize text) = parse text :=
  parse_pattern_of_isLegible (isLegible_parse text)

theorem normalizeWith_strict_eq_ok_iff {canonical : String} :
    normalizeWith .strict text = .ok canonical ↔
      ∃ rule, parseStrict text = .ok rule ∧ rule.pattern = canonical := by
  rw [normalizeWith, ← parseStrict]
  cases parseStrict text <;> simp [Except.map]

theorem normalizeWith_strict_again {canonical : String}
    (accepted : normalizeWith .strict text = .ok canonical) :
    normalizeWith .strict canonical = .ok canonical := by
  obtain ⟨rule, read, rfl⟩ := normalizeWith_strict_eq_ok_iff.mp accepted
  have again := parseStrict_pattern_of_isSound (isSound_of_parseStrict read)
  exact normalizeWith_strict_eq_ok_iff.mpr ⟨rule, again, rfl⟩

/-- Normalizing is stable on every text.  The rule that a text is read as is well formed; its
normal form is read as the same rule and is its own normal form; texts share a normal form exactly
if they are read as the same rule; and what the strict policy normalizes it normalizes again, to
itself. -/
theorem normalize_stable (text : String) :
    ((∀ interval ∈ (parse text).interval?, 1 ≤ interval.value) ∧ (parse text).IsLegible) ∧
      parse (normalize text) = parse text ∧
      normalize (normalize text) = normalize text ∧
      (∀ other, normalize text = normalize other ↔ parse text = parse other) ∧
      ∀ canonical, normalizeWith .strict text = .ok canonical →
        normalizeWith .strict canonical = .ok canonical := by
  refine ⟨⟨fun interval _ => interval.positive, isLegible_parse text⟩, parse_normalize text, ?_, ?_,
    fun canonical => normalizeWith_strict_again⟩
  · rw [normalize, parse_normalize, normalize]
  · exact fun other => pattern_inj_of_isLegible (isLegible_parse text) (isLegible_parse other)

end Rule

end Cadence
