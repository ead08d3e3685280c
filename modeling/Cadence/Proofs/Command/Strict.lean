import Cadence.Command.Run
import Cadence.Proofs.Pattern.Normal

/-!
# What strict reading changes in a run

A command line may ask for strict reading, in front of the command or after it.  This module
compares a run with the run of the same command line without that option.

* `Arguments.Takes` is what it means for words to be told apart: they are used up one after
  another.  Reading succeeds exactly on such words.
* `Arguments.Takes.dropStrict`: leaving out the option, wherever it stands, leaves all else that is
  told apart as it was.  `Invocation.parse_withStrict` carries this over to whole command lines.
* `Command.answer_of_strict`: an answer under the strict policy is the answer under any policy,
  since a pattern that is read strictly is read the same leniently.
* `Invocation.strict_only_refuses` compares the runs.
-/

namespace Cadence

theorem Except.bind_eq_ok_iff {ε α β : Type} {first : Except ε α} {next : α → Except ε β} {b : β} :
    first >>= next = .ok b ↔ ∃ a, first = .ok a ∧ next a = .ok b := by
  cases first with
  | error fault => simp [bind, Except.bind]
  | ok a => simp [bind, Except.bind]

namespace Arguments

variable {grammar : Grammar} {found other next result : Words} {name word operand : String}
  {value : Option String} {words : List String} {strict : Bool}

/-! ## Reading word by word -/

/-- Given what was found before, the words are told apart into `result`. -/
inductive Takes (grammar : Grammar) : Words → List String → Words → Prop where
  | stop {found : Words} : Takes grammar found [] found
  | operands {found result : Words} {words : List String}
      (added : words.foldlM (·.addOperand grammar ·) found = .ok result) :
      Takes grammar found ("--" :: words) result
  | operand {found next result : Words} {word : String} {words : List String}
      (plain : startsOption word = false) (added : found.addOperand grammar word = .ok next)
      (rest : Takes grammar next words result) : Takes grammar found (word :: words) result
  /-- An option with its value in the same word. -/
  | joined {found next result : Words} {word name value : String} {test : Test}
      {words : List String} (option : startsOption word = true) (different : word ≠ "--")
      (silent : grammar.isQuestion word = false) (cut : cutOption word = (name, some value))
      (known : grammar.valued.lookup name = some test)
      (added : found.addValued name test value = .ok next)
      (rest : Takes grammar next words result) : Takes grammar found (word :: words) result
  /-- An option with its value in the next word. -/
  | spaced {found next result : Words} {word value : String} {test : Test}
      {words : List String} (option : startsOption word = true) (different : word ≠ "--")
      (silent : grammar.isQuestion word = false) (whole : cutOption word = (word, none))
      (known : grammar.valued.lookup word = some test) (plain : startsOption value = false)
      (added : found.addValued word test value = .ok next)
      (rest : Takes grammar next words result) :
      Takes grammar found (word :: value :: words) result
  | flag {found next result : Words} {word : String} {words : List String}
      (option : startsOption word = true) (different : word ≠ "--")
      (silent : grammar.isQuestion word = false) (whole : cutOption word = (word, none))
      (unknown : grammar.valued.lookup word = none) (isFlag : word ∈ grammar.flags)
      (added : found.addOption word none = .ok next) (rest : Takes grammar next words result) :
      Takes grammar found (word :: words) result

theorem cutOption_none (whole : cutOption word = (name, none)) : name = word := by
  unfold cutOption at whole
  split at whole
  · simp at whole
  · exact (congrArg Prod.fst whole).symm

theorem ne_strict_of_cut {text : String} (cut : cutOption word = (name, some text)) :
    word ≠ "--strict" := by
  rintro rfl
  have whole : cutOption "--strict" = ("--strict", none) := by decide
  rw [whole] at cut
  simp at cut

theorem takes_of_read (done : read grammar found words = .ok result) :
    Takes grammar found words result := by
  fun_induction read grammar found words with
  | case1 found =>
    cases done
    exact .stop
  | case2 found words => exact .operands done
  | case3 found word words _ plain ih =>
    obtain ⟨next, added, rest⟩ := Except.bind_eq_ok_iff.mp done
    exact .operand (by simpa using plain) added (ih next rest)
  | case5 found word words different option silent name test value known cut ih =>
    obtain ⟨next, added, rest⟩ := Except.bind_eq_ok_iff.mp done
    exact .joined (by simpa using option) different (by simpa using silent) cut known added
      (ih next rest)
  | case8 found word different option silent name test known value words plain whole ih =>
    obtain ⟨next, added, rest⟩ := Except.bind_eq_ok_iff.mp done
    obtain rfl := cutOption_none whole
    exact .spaced (by simpa using option) different (by simpa using silent) whole known
      (by simpa using plain) added (ih next rest)
  | case10 found word words different option silent name unknown isFlag whole ih =>
    obtain ⟨next, added, rest⟩ := Except.bind_eq_ok_iff.mp done
    obtain rfl := cutOption_none whole
    exact .flag (by simpa using option) different (by simpa using silent) whole unknown isFlag
      added (ih next rest)
  | case4 | case6 | case7 | case9 | case11 => contradiction

theorem ne_of_startsOption {option : String} (plain : startsOption word = false)
    (starts : startsOption option = true) : word ≠ option := by
  rintro rfl
  rw [plain] at starts
  contradiction

theorem ne_dashes (plain : startsOption word = false) : word ≠ "--" :=
  ne_of_startsOption plain (by decide)

theorem ne_strict (plain : startsOption word = false) : word ≠ "--strict" :=
  ne_of_startsOption plain (by decide)

theorem read_of_takes (takes : Takes grammar found words result) :
    read grammar found words = .ok result := by
  induction takes with
  | stop => rfl
  | operands added => exact added
  | operand plain added rest ih =>
    rw [read]
    · simp [plain, added, ih, bind, Except.bind]
    · exact ne_dashes plain
  | joined option different silent cut known added rest ih =>
    rw [read]
    · simp [option, silent, cut, known, added, ih, bind, Except.bind]
    · exact different
  | spaced option different silent whole known plain added rest ih =>
    rw [read]
    · simp [option, silent, whole, known, plain, added, ih, bind, Except.bind]
    · exact different
  | flag option different silent whole unknown isFlag added rest ih =>
    rw [read]
    · simp [option, silent, whole, unknown, isFlag, added, ih, bind, Except.bind]
    · exact different

/-! ## Without the option for strict reading -/

/-- The words without the option for strict reading.  After `--` no word is an option. -/
def dropStrict : List String → List String
  | [] => []
  | "--" :: words => "--" :: words
  | word :: words => if word = "--strict" then dropStrict words else word :: dropStrict words

theorem dropStrict_strict : dropStrict ("--strict" :: words) = dropStrict words := rfl

theorem dropStrict_cons (different : word ≠ "--") (kept : word ≠ "--strict") :
    dropStrict (word :: words) = word :: dropStrict words := by
  rw [dropStrict, if_neg kept]
  exact different

/-- What was found, with or without the option for strict reading in front. -/
def Words.setStrict (strict : Bool) (found : Words) : Words :=
  { found with
    options :=
      (if strict then [("--strict", none)] else []) ++ found.options.filter (·.1 ≠ "--strict") }

theorem has_setStrict : (found.setStrict strict).has "--strict" = strict := by
  cases strict with
  | true => rfl
  | false =>
    have dropped : (found.options.filter (·.1 ≠ "--strict")).lookup "--strict" = none := by
      rw [List.lookup_eq_none_iff]
      intro option member
      have kept : option.1 ≠ "--strict" := by simpa using (List.mem_filter.mp member).2
      exact bne_iff_ne.mpr kept.symm
    exact congrArg Option.isSome dropped

theorem lookup_setStrict (kept : name ≠ "--strict") :
    (found.setStrict strict).options.lookup name = found.options.lookup name := by
  have other : (name == "--strict") = false := by simpa using kept
  have filtered (options : List (String × Option String)) :
      (options.filter (·.1 ≠ "--strict")).lookup name = options.lookup name := by
    induction options with
    | nil => rfl
    | cons option options ih =>
      by_cases isStrict : option.1 = "--strict"
      · rw [List.filter_cons_of_neg (by simp [isStrict]), ih, List.lookup_cons, isStrict, other]
      · rw [List.filter_cons_of_pos (by simp [isStrict]), List.lookup_cons, List.lookup_cons, ih]
  cases strict with
  | false => exact filtered found.options
  | true =>
    show List.lookup name (("--strict", none) :: _) = _
    rw [List.lookup_cons, other]
    exact filtered found.options

theorem value_setStrict {ε α : Type} {read : String → Except ε α} (kept : name ≠ "--strict") :
    (found.setStrict strict).value name read = found.value name read := by
  rw [Words.value, lookup_setStrict kept, Words.value]

theorem addOption_setStrict (kept : name ≠ "--strict")
    (added : found.addOption name value = .ok next) :
    (found.setStrict strict).addOption name value = .ok (next.setStrict strict) := by
  unfold Words.addOption at added ⊢
  rw [lookup_setStrict kept]
  split at added
  · contradiction
  · next given =>
    cases added
    rw [if_neg given]
    simp [Words.setStrict, kept, pure, Except.pure]

theorem addValued_setStrict {test : Test} {text : String} (kept : name ≠ "--strict")
    (added : found.addValued name test text = .ok next) :
    (found.setStrict strict).addValued name test text = .ok (next.setStrict strict) := by
  unfold Words.addValued at added ⊢
  split at added
  · next passed =>
    rw [if_pos passed]
    exact addOption_setStrict kept added
  · contradiction

theorem setStrict_of_addStrict (added : found.addOption "--strict" none = .ok next) :
    next.setStrict strict = found.setStrict strict := by
  unfold Words.addOption at added
  split at added
  · contradiction
  · cases added
    simp [Words.setStrict]

theorem addOperand_setStrict (added : found.addOperand grammar operand = .ok next) :
    (found.setStrict strict).addOperand grammar operand = .ok (next.setStrict strict) := by
  unfold Words.addOperand at added ⊢
  split at added
  · next test place =>
    split at added
    · next passed =>
      cases added
      simp [Words.setStrict, place, passed, pure, Except.pure]
    · contradiction
  · contradiction

theorem addOperands_setStrict (added : words.foldlM (·.addOperand grammar ·) found = .ok result) :
    words.foldlM (·.addOperand grammar ·) (found.setStrict strict) =
      .ok (result.setStrict strict) := by
  induction words generalizing found with
  | nil =>
    cases added
    rfl
  | cons operand words ih =>
    rw [List.foldlM_cons, Except.bind_eq_ok_iff] at added ⊢
    obtain ⟨next, first, others⟩ := added
    exact ⟨next.setStrict strict, addOperand_setStrict first, ih others⟩

/-- Leaving out the option for strict reading, wherever it stands, leaves all else as it was. -/
theorem Takes.dropStrict (noValue : grammar.valued.lookup "--strict" = none)
    (takes : Takes grammar found words result) :
    Takes grammar (found.setStrict strict) (dropStrict words) (result.setStrict strict) := by
  induction takes with
  | stop => exact .stop
  | operands added => exact .operands (addOperands_setStrict added)
  | operand plain added rest ih =>
    rw [dropStrict_cons (ne_dashes plain) (ne_strict plain)]
    exact .operand plain (addOperand_setStrict added) ih
  | @joined found next result word name value test words option different silent cut known added
      rest ih =>
    have kept : name ≠ "--strict" := by
      rintro rfl
      rw [noValue] at known
      contradiction
    rw [dropStrict_cons different (ne_strict_of_cut cut)]
    exact .joined option different silent cut known (addValued_setStrict kept added) ih
  | @spaced found next result word value test words option different silent whole known plain added
      rest ih =>
    have kept : word ≠ "--strict" := by
      rintro rfl
      rw [noValue] at known
      contradiction
    rw [dropStrict_cons different kept, dropStrict_cons (ne_dashes plain) (ne_strict plain)]
    exact .spaced option different silent whole known plain (addValued_setStrict kept added) ih
  | @flag found next result word words option different silent whole unknown isFlag added rest ih =>
    by_cases isStrict : word = "--strict"
    · subst isStrict
      rw [dropStrict_strict, ← setStrict_of_addStrict added]
      exact ih
    · rw [dropStrict_cons different isStrict]
      exact .flag option different silent whole unknown isFlag
        (addOption_setStrict isStrict added) ih

theorem read_dropStrict (noValue : grammar.valued.lookup "--strict" = none)
    (done : read grammar {} words = .ok result) :
    read grammar {} (dropStrict words) = .ok (result.setStrict false) := by
  have takes : Takes grammar (Words.setStrict false {}) (dropStrict words)
      (result.setStrict false) := (takes_of_read done).dropStrict noValue
  exact read_of_takes takes

section

variable {valued : List String} {text : String}

theorem cutCommand_valued (option : startsOption word = true) (different : word ≠ "--")
    (member : word ∈ valued) :
    cutCommand valued (word :: text :: words) =
      (word :: text :: (cutCommand valued words).1, (cutCommand valued words).2) := by
  rw [cutCommand.eq_def]
  split
  · contradiction
  · next same => exact absurd (List.cons.inj same).1 different
  · next same =>
    obtain ⟨rfl, rfl⟩ := List.cons.inj same
    rw [if_pos option, if_pos member]

theorem cutCommand_flag (option : startsOption word = true) (different : word ≠ "--")
    (notValued : word ∉ valued) :
    cutCommand valued (word :: words) =
      (word :: (cutCommand valued words).1, (cutCommand valued words).2) := by
  rw [cutCommand.eq_def]
  split
  · contradiction
  · next same => exact absurd (List.cons.inj same).1 different
  · next same =>
    obtain ⟨rfl, rfl⟩ := List.cons.inj same
    rw [if_pos option, if_neg notValued]

theorem cutCommand_plain (plain : startsOption word = false) (different : word ≠ "--") :
    cutCommand valued (word :: words) = ([], word :: words) := by
  rw [cutCommand.eq_def]
  split
  · contradiction
  · next same => exact absurd (List.cons.inj same).1 different
  · next same =>
    obtain ⟨rfl, rfl⟩ := List.cons.inj same
    simp [plain]

end

end Arguments

namespace Invocation

open Arguments

variable {name : String} {words : List String} {found : Words} {command : Command}

theorem bind_read_dropStrict {grammar : Grammar} {next : Words → Except Refusal (Words × Command)}
    (noValue : grammar.valued.lookup "--strict" = none)
    (keeps : ∀ words found command, next words = .ok (found, command) →
      next (words.setStrict false) = .ok (found.setStrict false, command))
    (done : read grammar {} words >>= next = .ok (found, command)) :
    read grammar {} (dropStrict words) >>= next = .ok (found.setStrict false, command) := by
  obtain ⟨between, first, rest⟩ := Except.bind_eq_ok_iff.mp done
  exact Except.bind_eq_ok_iff.mpr ⟨_, read_dropStrict noValue first, keeps _ _ _ rest⟩

theorem readCommand_dropStrict (done : readCommand name words = .ok (found, command)) :
    readCommand name (dropStrict words) = .ok (found.setStrict false, command) := by
  unfold readCommand at done ⊢
  split at done
  · refine bind_read_dropStrict rfl ?_ done
    intro words found command rest
    obtain ⟨operand, only, rest⟩ := Except.bind_eq_ok_iff.mp rest
    cases rest
    exact Except.bind_eq_ok_iff.mpr ⟨operand, only, rfl⟩
  · refine bind_read_dropStrict rfl ?_ done
    intro words found command rest
    obtain ⟨operand, only, rest⟩ := Except.bind_eq_ok_iff.mp rest
    cases rest
    exact Except.bind_eq_ok_iff.mpr ⟨operand, only, rfl⟩
  · refine bind_read_dropStrict rfl ?_ done
    intro words found command rest
    obtain ⟨operand, only, rest⟩ := Except.bind_eq_ok_iff.mp rest
    obtain ⟨anchor, readAnchor, rest⟩ := Except.bind_eq_ok_iff.mp rest
    obtain ⟨limit, readLimit, rest⟩ := Except.bind_eq_ok_iff.mp rest
    obtain ⟨ending, readEnding, rest⟩ := Except.bind_eq_ok_iff.mp rest
    obtain ⟨produced, readProduced, rest⟩ := Except.bind_eq_ok_iff.mp rest
    cases rest
    rw [← value_setStrict (by decide)] at readAnchor readLimit readEnding readProduced
    refine Except.bind_eq_ok_iff.mpr ⟨operand, only, ?_⟩
    refine Except.bind_eq_ok_iff.mpr ⟨anchor, readAnchor, ?_⟩
    refine Except.bind_eq_ok_iff.mpr ⟨limit, readLimit, ?_⟩
    refine Except.bind_eq_ok_iff.mpr ⟨ending, readEnding, ?_⟩
    exact Except.bind_eq_ok_iff.mpr ⟨produced, readProduced, rfl⟩
  · refine bind_read_dropStrict rfl ?_ done
    intro words found command rest
    have same : (words.setStrict false).operands = words.operands := rfl
    rw [same]
    split at rest
    case h_3 => contradiction
    all_goals
      simp only [pure_bind] at rest ⊢
      split at rest
      · contradiction
      · cases rest
        rfl
  · split at done <;> contradiction
  · contradiction

theorem cutCommand_dropStrict {before after : List String} {found result : Words}
    (cut : cutCommand ["--config"] words = (before, name :: after))
    (takes : Takes outerGrammar found before result) :
    cutCommand ["--config"] (dropStrict words) = (dropStrict before, name :: dropStrict after) := by
  fun_induction cutCommand ["--config"] words generalizing before after found with
  | case1 => simp at cut
  | case2 words => simp at cut
  | case3 word different option isConfig value words front command rest ih =>
    obtain ⟨rfl, rfl⟩ := cut
    have isWord : word = "--config" := List.mem_singleton.mp isConfig
    have whole : cutOption word = ("--config", none) := by
      rw [isWord]
      decide
    have kept : word ≠ "--strict" := by
      rw [isWord]
      decide
    cases takes with
    | operands added => contradiction
    | operand plain added takes =>
      rw [option] at plain
      contradiction
    | joined option different silent cut known added takes =>
      rw [whole] at cut
      simp at cut
    | spaced option different silent whole known plain added takes =>
      rw [dropStrict_cons different kept, dropStrict_cons (ne_dashes plain) (ne_strict plain),
        cutCommand_valued option different isConfig, ih rest takes,
        dropStrict_cons different kept, dropStrict_cons (ne_dashes plain) (ne_strict plain)]
    | flag option different silent whole unknown isFlag added takes =>
      rw [isWord] at unknown
      contradiction
  | case4 word different option isConfig => simp at cut
  | case5 word words different option notConfig front command rest ih =>
    obtain ⟨rfl, rfl⟩ := cut
    have step {next : Words} (takes : Takes outerGrammar next front result)
        (kept : word ≠ "--strict") :
        cutCommand ["--config"] (dropStrict (word :: words)) =
          (dropStrict (word :: front), name :: dropStrict after) := by
      rw [dropStrict_cons different kept, dropStrict_cons different kept,
        cutCommand_flag option different notConfig, ih rest takes]
    cases takes with
    | operands added => contradiction
    | operand plain added takes =>
      rw [option] at plain
      contradiction
    | joined option different silent cut known added takes =>
      exact step takes (ne_strict_of_cut cut)
    | spaced option different silent whole known plain added takes =>
      have unknown : outerGrammar.valued.lookup word = none := by
        have other : (word == "--config") = false := by simpa using notConfig
        simp [outerGrammar, List.lookup_cons, other]
      rw [unknown] at known
      contradiction
    | flag option different silent whole unknown isFlag added takes =>
      by_cases isStrict : word = "--strict"
      · rw [isStrict, dropStrict_strict, dropStrict_strict]
        exact ih rest takes
      · exact step takes isStrict
  | case6 word words different plain =>
    obtain ⟨rfl, rfl⟩ := cut
    have plain : startsOption name = false := by simpa using plain
    rw [dropStrict_cons (ne_dashes plain) (ne_strict plain),
      cutCommand_plain plain (ne_dashes plain)]
    rfl

/-- The command line with the option for strict reading in front, or without it at all. -/
def withStrict (strict : Bool) (words : List String) : List String :=
  (if strict then ["--strict"] else []) ++ dropStrict words

/-- The invocation, with strict reading asked for or not. -/
def asking (invocation : Invocation) (strict : Bool) : Invocation := { invocation with strict }

theorem read_withStrict {before : List String} (strict : Bool)
    (done : read outerGrammar {} before = .ok found) :
    read outerGrammar {} (withStrict strict before) = .ok (found.setStrict strict) := by
  have takes : Takes outerGrammar (Words.setStrict strict {}) (dropStrict before)
      (found.setStrict strict) := (takes_of_read done).dropStrict rfl
  cases strict with
  | false => exact read_of_takes takes
  | true =>
    refine read_of_takes (.flag ?_ ?_ ?_ ?_ rfl ?_ rfl takes)
    all_goals decide

theorem cutCommand_withStrict {before after : List String} (strict : Bool)
    (cut : cutCommand ["--config"] words = (before, name :: after))
    (done : read outerGrammar {} before = .ok found) :
    cutCommand ["--config"] (withStrict strict words) =
      (withStrict strict before, name :: dropStrict after) := by
  have dropped := cutCommand_dropStrict cut (takes_of_read done)
  cases strict with
  | false => exact dropped
  | true =>
    have flag : cutCommand ["--config"] ("--strict" :: dropStrict words) =
        ("--strict" :: (cutCommand ["--config"] (dropStrict words)).1,
          (cutCommand ["--config"] (dropStrict words)).2) :=
      cutCommand_flag (by decide) (by decide) (by decide)
    rw [dropped] at flag
    exact flag

theorem parse_withStrict {invocation : Invocation} (strict : Bool)
    (parsed : parse words = .ok invocation) :
    parse (withStrict strict words) = .ok (invocation.asking strict) := by
  have valued : outerGrammar.valued.map (·.1) = ["--config"] := rfl
  unfold parse at parsed ⊢
  rw [valued] at parsed ⊢
  cases cut : cutCommand ["--config"] words with | mk before named =>
  rw [cut] at parsed
  obtain ⟨front, readFront, parsed⟩ := Except.bind_eq_ok_iff.mp parsed
  obtain ⟨outer, valueOuter, parsed⟩ := Except.bind_eq_ok_iff.mp parsed
  cases named with
  | nil => contradiction
  | cons name after =>
    obtain ⟨⟨back, command⟩, readBack, parsed⟩ := Except.bind_eq_ok_iff.mp parsed
    obtain ⟨inner, valueInner, parsed⟩ := Except.bind_eq_ok_iff.mp parsed
    rw [cutCommand_withStrict strict cut readFront]
    rw [← value_setStrict (by decide)] at valueOuter valueInner
    refine Except.bind_eq_ok_iff.mpr ⟨_, read_withStrict strict readFront, ?_⟩
    refine Except.bind_eq_ok_iff.mpr ⟨outer, valueOuter, ?_⟩
    refine Except.bind_eq_ok_iff.mpr ⟨_, readCommand_dropStrict readBack, ?_⟩
    refine Except.bind_eq_ok_iff.mpr ⟨inner, valueInner, ?_⟩
    split at parsed
    · contradiction
    · contradiction
    · cases parsed
      rw [has_setStrict, has_setStrict, Bool.or_false]
      rfl

end Invocation

/-! ## Answers and runs -/

theorem Rule.parseWith_of_strict {text : String} {rule : Rule} (policy : Policy)
    (accepted : parseWith .strict text = .ok rule) : parseWith policy text = .ok rule := by
  cases policy with
  | strict => exact accepted
  | lenient => exact congrArg Except.ok (parse_of_parseStrict accepted)

theorem Rule.normalizeWith_of_strict {text canonical : String} (policy : Policy)
    (accepted : normalizeWith .strict text = .ok canonical) :
    normalizeWith policy text = .ok canonical := by
  obtain ⟨rule, read, rfl⟩ := normalizeWith_strict_eq_ok_iff.mp accepted
  rw [normalizeWith, parseWith_of_strict policy read]
  rfl

namespace Command

variable {settings : Settings} {today : Date} {command : Command} {texts : List String}

/-- What is answered under the strict policy is answered under any. -/
theorem answer_of_strict (policy : Policy)
    (answered : command.answer { settings with policy := .strict } today = .ok texts) :
    command.answer { settings with policy } today = .ok texts := by
  cases command with
  | summary pattern =>
    obtain ⟨rule, accepted, rest⟩ := Except.bind_eq_ok_iff.mp answered
    exact Except.bind_eq_ok_iff.mpr ⟨rule, Rule.parseWith_of_strict policy accepted, rest⟩
  | normalize pattern =>
    obtain ⟨canonical, accepted, rest⟩ := Except.bind_eq_ok_iff.mp answered
    exact Except.bind_eq_ok_iff.mpr ⟨canonical, Rule.normalizeWith_of_strict policy accepted, rest⟩
  | next request =>
    obtain ⟨rule, accepted, rest⟩ := Except.bind_eq_ok_iff.mp answered
    exact Except.bind_eq_ok_iff.mpr ⟨rule, Rule.parseWith_of_strict policy accepted, rest⟩
  | importLegacy columns => exact answered

theorem exists_answer (lenient : settings.policy = .lenient)
    (pattern : ∀ columns, command ≠ importLegacy columns) :
    ∃ texts, command.answer settings today = .ok texts := by
  cases command with
  | importLegacy columns => exact absurd rfl (pattern columns)
  | _ => exact ⟨_, by rw [answer, lenient]; rfl⟩

end Command

namespace Invocation

variable {words : List String} {invocation : Invocation} {file : SettingsFile} {today : Date}

theorem run_of_answer {settings : Settings} {texts : List String}
    (loaded : invocation.settings file = .ok settings)
    (answered : invocation.command.answer settings today = .ok texts) :
    invocation.run file today = .answer (lines texts) := by
  rw [run, loaded]
  simp only [answered]

/-- A run either answers, or fails before it shows anything. -/
theorem run_answers_or_fails (invocation : Invocation) (file : SettingsFile) (today : Date) :
    (∃ settings texts, invocation.settings file = .ok settings ∧
        invocation.command.answer settings today = .ok texts ∧
        invocation.run file today = .answer (lines texts)) ∨
      ∃ message, invocation.run file today = .failure message := by
  cases loaded : invocation.settings file with
  | error fault => exact .inr ⟨_, by rw [run, loaded]⟩
  | ok settings =>
    cases answered : invocation.command.answer settings today with
    | error error => exact .inr ⟨_, by rw [run, loaded]; simp only [answered]; rfl⟩
    | ok texts => exact .inl ⟨settings, texts, rfl, answered, run_of_answer loaded answered⟩

/-- Asking for strict reading changes nothing in the settings but their policy. -/
theorem settings_asking (invocation : Invocation) (file : SettingsFile) :
    (invocation.asking true).settings file =
      ((invocation.asking false).settings file).map fun settings =>
        { settings with policy := .strict } := by
  unfold settings
  cases named : invocation.settingsFile with
  | none =>
    simp only [asking, named]
    rfl
  | some name =>
    simp only [asking, named]
    cases loaded : Settings.load file <;> rfl

theorem run_asking (succeeds : ((invocation.asking true).run file today).exitCode = 0) :
    (invocation.asking false).run file today = (invocation.asking true).run file today := by
  rcases run_answers_or_fails (invocation.asking true) file today with
    ⟨strictly, texts, loaded, answered, shown⟩ | ⟨message, failed⟩
  · rw [settings_asking] at loaded
    cases plain : (invocation.asking false).settings file with
    | error fault =>
      rw [plain] at loaded
      contradiction
    | ok settings =>
      rw [plain] at loaded
      cases loaded
      rw [shown]
      exact run_of_answer plain (Command.answer_of_strict settings.policy answered)
  · rw [failed] at succeeds
    contradiction

theorem run_import {columns : LegacyColumns}
    (isImport : invocation.command = .importLegacy columns) :
    (invocation.asking false).run file today = (invocation.asking true).run file today := by
  have same (strict : Bool) : (invocation.asking strict).command = .importLegacy columns := isImport
  rw [run, run, settings_asking, same, same]
  cases (invocation.asking false).settings file <;> rfl

/-- Strict reading only refuses.  A command line that is understood is understood with the option
for it and without.  A run that succeeds with the option shows the same without it; the option
changes no import; without it and without a strict policy in the settings, no other command fails
once the settings have loaded; and a run that fails shows nothing. -/
theorem strict_only_refuses (parsed : parse words = .ok invocation) (file : SettingsFile)
    (today : Date) :
    (∀ strict, parse (withStrict strict words) = .ok (invocation.asking strict)) ∧
      (((invocation.asking true).run file today).exitCode = 0 →
        (invocation.asking false).run file today = (invocation.asking true).run file today) ∧
      (∀ columns, invocation.command = .importLegacy columns →
        (invocation.asking false).run file today = (invocation.asking true).run file today) ∧
      ((∀ columns, invocation.command ≠ .importLegacy columns) →
        ∀ settings, (invocation.asking false).settings file = .ok settings →
          settings.policy ≠ .strict → ((invocation.asking false).run file today).exitCode = 0) ∧
      ∀ strict, ((invocation.asking strict).run file today).exitCode = 1 →
        ((invocation.asking strict).run file today).output = "" := by
  refine ⟨fun strict => parse_withStrict strict parsed, run_asking,
    fun columns isImport => run_import isImport, ?_, ?_⟩
  · intro notImport settings loaded permissive
    have lenient : settings.policy = .lenient := by
      cases policy : settings.policy with
      | lenient => rfl
      | strict => exact absurd policy permissive
    obtain ⟨texts, answered⟩ := @Command.exists_answer settings today _ lenient notImport
    rw [run_of_answer loaded answered]
    rfl
  · intro strict fails
    rcases run_answers_or_fails (invocation.asking strict) file today with
      ⟨settings, texts, loaded, answered, shown⟩ | ⟨message, failed⟩
    · rw [shown] at fails
      contradiction
    · rw [failed]
      rfl

/-- A request for the dates of a well-formed pattern, with strict reading asked for at the end. -/
theorem strict_next_shows_the_same :
    let words := ["next", "weekly:2:1,3", "--from=2025-01-01", "--strict"]
    let today : Date := ⟨739251, by decide⟩
    let request : NextRequest := { pattern := "weekly:2:1,3", anchor := some today }
    let invocation : Invocation := { command := .next request, strict := true }
    parse words = .ok invocation ∧
      parse (withStrict false words) = .ok { command := .next request } ∧
      (invocation.run .missing today).exitCode = 0 ∧
      run { command := .next request } .missing today = invocation.run .missing today := by
  intro words today request invocation
  have parsed : parse words = .ok invocation := by decide +kernel
  have succeeds : (invocation.run .missing today).exitCode = 0 := by decide +kernel
  obtain ⟨understood, same, _⟩ := strict_only_refuses parsed .missing today
  exact ⟨parsed, understood false, succeeds, same succeeds⟩

end Invocation

end Cadence
